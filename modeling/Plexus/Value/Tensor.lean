import Plexus.Numeric.LowRank
import Plexus.Numeric.Scalar
import Plexus.Numeric.Stack
import Plexus.Value.Number

/-!
# Operands from values

Inputs, targets and parameters may be given as a number or as lists nested to any depth,
as long as the nesting is rectangular and not too deep.  Their cells are read from left to
right.  A matrix is read more strictly: a missing cell or a numeral in a text is none.
-/

namespace Plexus
namespace Value

mutual

/-- The extents of a rectangular value, outermost first; `none` if it is ragged. -/
def shape? : Value → Option (List Nat)
  | .list xs =>
      match shapes xs with
      | none => none
      | some [] => some [0]
      | some (s :: rest) => if rest.all (· == s) then some ((rest.length + 1) :: s) else none
  | _ => some []

/-- The extents of each item of a list. -/
def shapes : List Value → Option (List (List Nat))
  | [] => some []
  | x :: xs =>
      match shape? x, shapes xs with
      | some s, some rest => some (s :: rest)
      | _, _ => none

end

mutual

/-- The parts of a value that are not lists, from left to right. -/
def leaves : Value → List Value
  | .list xs => leavesOf xs
  | v => [v]

/-- The leaves of each item of a list, joined. -/
def leavesOf : List Value → List Value
  | [] => []
  | x :: xs => leaves x ++ leavesOf xs

end

/-- A cell: a number, where a missing one counts as what is not a number. -/
def toCell : Value → Except Fault Float
  | .null => .ok (0.0 / 0.0)
  | v => v.toFloat

/-- The most extents that an operand has. -/
def maxDepth : Nat := 64

/-- The extents of an operand; one that is ragged or nested too deep has none. -/
def extents (v : Value) : Except Fault (List Nat) :=
  match v.shape? with
  | none => .error .badValue
  | some shape => if shape.length ≤ maxDepth then .ok shape else .error .badValue

/-- The cells of a value, in double precision. -/
def cells (v : Value) : Except Fault (List Float) := do
  let _ ← v.extents
  v.leaves.mapM toCell

/-- A value as an operand. -/
def operand {α : Type} [Scalar α] (v : Value) : Operand α :=
  match v.cells with
  | .ok xs => .ok (xs.map Scalar.ofFloat).toArray
  | .error e => .error e

/-- The number of directions that a rank keeps of all; a missing rank keeps all of them. -/
def keptBy (all : Nat) : Value → Except Fault Nat
  | .null => .ok all
  | rank => rank.toInt.map (LowRank.kept all)

mutual

/--
The extents that the leading items of a value tell.  A text among the items is a sequence
whose items are texts, so it only ends if it has none.
-/
def leadingExtents : Value → Except Fault (List Nat)
  | .list xs => (leadingOfItems xs).map (xs.length :: ·)
  | .text s => if s.isEmpty then .ok [0] else .error .badValue
  | _ => .ok []

/-- The extents that the first item of a list tells. -/
def leadingOfItems : List Value → Except Fault (List Nat)
  | [] => .ok []
  | x :: _ => leadingExtents x

end

/-- The items of a value that can be gone through. -/
def sequence : Value → Except Fault (List Value)
  | .list xs => .ok xs
  | .object fs => .ok (fs.map fun f => .text f.1)
  | .text s => .ok (s.toList.map fun c => .text c.toString)
  | _ => .error .mistyped

/-- A cell that is given as a number. -/
def strictCell : Value → Except Fault Float
  | .text _ => .error .mistyped
  | v => v.toFloat

/-- The cells of a value under some extents, which it must have throughout. -/
def cellsUnder : List Nat → Value → Except Fault (List Float)
  | [], v => v.strictCell.map fun x => [x]
  | n :: rest, v => do
      let xs ← v.sequence
      if xs.length ≠ n then throw .badValue
      return (← xs.mapM (cellsUnder rest)).flatten

/-- The most extents that a matrix can be nested in. -/
def maxExtents : Nat := 128

/-- The extents and the cells of a matrix, or of a stack of matrices. -/
def stackCells (v : Value) : Except Fault (List Nat × List Float) := do
  if v matches .text _ then throw .mistyped
  let extents ← v.leadingExtents
  if maxExtents < extents.length then throw .badValue
  if extents.contains 0 then return (extents, [])
  return (extents, ← cellsUnder extents v)

/-- The best approximation of a rank to a matrix, row by row; of a stack, what its factors give. -/
def principal {α : Type} [Scalar α] (matrix rank : Value) : Except Fault (Array α) := do
  let (extents, cells) ← matrix.stackCells
  let cells : Array α := (cells.map Scalar.ofFloat).toArray
  match extents.reverse with
  | cols :: rows :: outer =>
      if cells.any Scalar.isNaN then throw .notDecomposable
      if outer.isEmpty then
        return Scalar.principal rows cols (← keptBy (min rows cols) rank) cells
      else
        let stack := Stack.ofCells outer.reverse rows cols (cells.map Scalar.toFloat)
        let grid ← stack.principal fun all => keptBy all rank
        return (grid.toList.map Scalar.ofFloat).toArray
  | _ => throw .badExtents

end Value
end Plexus
