import Plexus.Layers.Topology
import Plexus.Random.Generator
import Plexus.Value.Record

/-!
# Recipes for networks

A recipe is the name of a topology with named arguments.  The arguments are read in the
order in which they are used: the seed first, then the layers, then what connects them.
-/

namespace Plexus

/-- The topologies. -/
inductive Topology where
  | mlp
  | sparseMlp
  | residual
  | recurrent
  | randomDag
deriving DecidableEq, Inhabited

namespace Topology

/-- The name of a topology. -/
def name : Topology → String
  | .mlp => "mlp"
  | .sparseMlp => "sparse_mlp"
  | .residual => "resnet_like"
  | .recurrent => "recurrent"
  | .randomDag => "random_dag"

/-- The topology with a name. -/
def ofName? (s : String) : Option Topology :=
  [mlp, sparseMlp, residual, recurrent, randomDag].find? fun t => t.name == s

/-- The arguments that a topology needs. -/
def needed : Topology → List String
  | .randomDag => ["n_nodes"]
  | _ => ["layer_sizes"]

/-- All arguments that a topology takes. -/
def allowed (t : Topology) : List String :=
  t.needed ++ ["seed"] ++
    match t with
    | .mlp => []
    | .sparseMlp => ["connection_prob"]
    | .residual => ["skip_frequency"]
    | .recurrent => ["recurrent_prob", "self_loops"]
    | .randomDag => ["edge_prob"]

end Topology

namespace Recipe

/-- The size of a layer; a negative one counts as zero. -/
def size (v : Value) : Except Fault Nat := v.toInt.map Int.toNat

/-- The sizes of layers.  Texts and objects have no sizes in them, so they must be empty. -/
def sizes : Value → Except Fault (List Nat)
  | .list items => items.mapM size
  | .text s => if s.isEmpty then .ok [] else .error .mistyped
  | .object fs => if fs.isEmpty then .ok [] else .error .mistyped
  | _ => .error .mistyped

/-- A number that is not given as a text, as a double. -/
def number (v : Value) : Except Fault Float := do (← v.toNumber).toFloat

/-- How many layers further on a connection leads. -/
def stride (v : Value) : Except Fault Nat := do
  let n ← v.toInt
  if n < 0 then throw .outOfRange else return n.toNat

/-- An empty builder from named arguments. -/
def builder (fs : List (String × Value)) : Except Fault (Builder Generator) := do
  Value.strict ["activation", "weight_scale", "seed"] [] fs
  let source ← Generator.ofSeed (Value.optional fs "seed" .null)
  return Builder.start (Value.optional fs "activation" Builder.defaultActivation)
    (number (Value.optional fs "weight_scale" (.real 0.5))) source

/-- Adds the layers and connections of a topology to an empty builder. -/
def layOut {σ : Type} [Draws σ] (t : Topology) (fs : List (String × Value)) :
    Attempt (Builder σ) Unit := do
  let argument (key : String) (default : Value) : Value := Value.optional fs key default
  let layers : Attempt (Builder σ) (List Nat) := Attempt.of (sizes (argument "layer_sizes" .null))
  match t with
  | .mlp =>
      let layers ← layers
      modify (Builder.mlp layers)
  | .sparseMlp => Builder.sparseMlp (← layers) (argument "connection_prob" (.real 0.3))
  | .residual =>
      let layers ← layers
      let stride ← Attempt.of (stride (argument "skip_frequency" (.int 2)))
      modify (Builder.residual layers stride)
  | .recurrent =>
      Builder.recurrent (← layers) (argument "recurrent_prob" (.real 0.1))
        (argument "self_loops" (.flag true)).truth
  | .randomDag =>
      let size ← Attempt.of (size (argument "n_nodes" .null))
      Builder.randomDag size (argument "edge_prob" (.real 0.1))

/-- The network of a recipe. -/
def network (t : Topology) (fs : List (String × Value)) :
    Except Fault (List Neuron × List Synapse) := do
  Value.strict t.allowed t.needed fs
  let source ← Generator.ofSeed (Value.optional fs "seed" .null)
  let b := Builder.start Builder.defaultActivation Builder.defaultScale source
  let attempt : Attempt (Builder Generator) (List Neuron × List Synapse) := do
    layOut t fs
    Builder.build
  (attempt.outcome b).1

end Recipe
end Plexus
