import Plexus.Backend.Workgroup

/-!
# Operation graphs

The graph backend turns a network into a chain of operations on the rows of an input:
multiply by the transposed weights, add the biases, activate.  A network whose slots all
have the same activation function gets a single operation for it, and none at all if the
function is the identity.
-/

namespace Plexus

/-- An operation on a row. -/
inductive Op where
  | multiply
  | addBias
  | activate (a : Activation)
  | activateBySlot
deriving DecidableEq, Inhabited

/-- A chain of operations and the constants they use. -/
structure OpGraph (α : Type) where
  size : Nat
  /-- The transposed weights: the cell of the connection from `s` to `t` is `s * size + t`. -/
  weightsT : Array α
  bias : Array α
  codes : List Activation
  ops : List Op

namespace OpGraph

variable {α : Type} [Scalar α]

/-- The transpose of a square matrix. -/
def transpose (size : Nat) (m : Array α) : Array α :=
  ((List.range (size * size)).map fun i => Scalar.cell m (i % size * size + i / size)).toArray

/-- The operations after multiplication and addition. -/
def activationOps (codes : List Activation) : List Op :=
  match codes with
  | [] => []
  | a :: rest =>
      if rest.all (· == a) then
        if a = .linear then [] else [.activate a]
      else [.activateBySlot]

/-- The operation graph of a network. -/
def build (size : Nat) (weights biases : Array α) (codes : List Activation) : OpGraph α :=
  { size
    weightsT := transpose size weights
    bias := biases
    codes
    ops := .multiply :: .addBias :: activationOps codes }

/-- Applies an operation to a row. -/
def apply (g : OpGraph α) (row : Array α) : Op → Array α
  | .multiply =>
      ((List.range g.size).map fun t =>
        Scalar.sumTo g.size fun s =>
          Scalar.mul (Scalar.cell row s) (Scalar.cell g.weightsT (s * g.size + t))).toArray
  | .addBias => row.zipWith Scalar.add g.bias
  | .activate a => row.map (Scalar.activate a)
  | .activateBySlot => (Activation.apply g.codes row.toList).toArray

/-- A row of an input. -/
def row (size : Nat) (input : Array α) (b : Nat) : Array α :=
  ((List.range size).map fun s => Scalar.cell input (b * size + s)).toArray

/-- Runs the chain on each row of an input. -/
def run (g : OpGraph α) (batch : Nat) (input : Array α) : Array α :=
  (Workgroup.overRows g.size batch fun b =>
    (g.ops.foldl g.apply (row g.size input b)).toList).toArray

/-- The weights, row by row. -/
def weights (g : OpGraph α) : Array α := transpose g.size g.weightsT

/-- The lines that list an operation and the constant it brings in. -/
def listing : Op → List String
  | .multiply => ["  [op] matmul"]
  | .addBias => ["  [op] add"]
  | .activate a => ["  [op] " ++ a.tag]
  | .activateBySlot => ["  [const] codes", "  [op] apply_activation"]

/-- The printed listing of a graph. -/
def describe (g : OpGraph α) : String :=
  "\n".intercalate (["Op Graph:", String.ofList (List.replicate 60 '='),
    "  [input] input_1", "  [const] weight_t", "  [const] bias"] ++
    g.ops.flatMap listing ++ ["  [output] output"])

end OpGraph
end Plexus
