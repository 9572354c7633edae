import Plexus.Layers.Builder

/-!
# Network topologies

Ready-made ways to lay out a network: stacks of fully or sparsely connected layers, with
connections that skip layers or stay within one, and random graphs without cycles.
-/

namespace Plexus
namespace Builder

variable {σ : Type} [Draws σ]

/-- Adds layers of the given sizes. -/
def addLayers (sizes : List Nat) (b : Builder σ) : Builder σ :=
  sizes.foldl (fun b size => (b.addLayer size).2) b

/-- The pairs of neighbouring layers. -/
def neighbours (layers : List (List String)) : List (List String × List String) :=
  layers.zip (layers.drop 1)

/-- Connects every layer fully with the next one. -/
def stackFull (b : Builder σ) : Builder σ :=
  (neighbours b.layers).foldl (fun b (s, t) => b.connectFull s t) b

/-- A stack of fully connected layers. -/
def mlp (sizes : List Nat) (b : Builder σ) : Builder σ := (b.addLayers sizes).stackFull

/-- A stack of layers that keeps each connection with a probability. -/
def sparseMlp (sizes : List Nat) (probability : Value) : Attempt (Builder σ) Unit := do
  modify (addLayers sizes)
  (neighbours (← get).layers).forM fun (s, t) => connectSparse s t probability

/--
A stack of fully connected layers in which each layer is also connected, neuron by neuron,
with the one `stride` layers on.
-/
def residual (sizes : List Nat) (stride : Nat) (b : Builder σ) : Builder σ :=
  let b := (b.addLayers sizes).stackFull
  (b.layers.zip (b.layers.drop stride)).foldl (fun b (s, t) => b.connectAligned s t) b

/-- A stack of fully connected layers whose hidden layers also connect within themselves. -/
def recurrent (sizes : List Nat) (probability : Value) (selfLoops : Bool) :
    Attempt (Builder σ) Unit := do
  modify (mlp sizes)
  (((← get).layers.drop 1).dropLast).forM fun layer =>
    connectRecurrent layer probability selfLoops

/-- The pairs of an earlier and a later item of a list. -/
def forwardPairs : List String → List (String × String)
  | [] => []
  | s :: rest => rest.map (fun t => (s, t)) ++ forwardPairs rest

/-- A single layer in which each connection forward is kept with a probability. -/
def randomDag (size : Nat) (probability : Value) : Attempt (Builder σ) Unit := do
  let ids ← modifyGet (addLayer size)
  (forwardPairs ids).forM (connectMaybe probability)

end Builder
end Plexus
