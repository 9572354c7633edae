import Plexus.Fault
import Plexus.Numeric.LowRank

/-!
# Stacks of matrices

A stack holds matrices of one shape under some outer extents.  Its matrices are factored one
by one, into left directions, strengths and right directions, and each kind of factor is
itself an array: one matrix, one row and one matrix under the outer extents.
`Stack.principal` cuts these arrays down along an extent and multiplies what is left.  For a
single matrix, the extent is that of the directions, and the product is the best
approximation of a rank.  For more matrices the extent is an outer one, or that of the rows.

Arrays that are multiplied need not have the same extents: an array goes with another one if
each of its extents, counted from the last one on, is the same or is one.
-/

namespace Plexus

/-- An array of reals under some extents, outermost first. -/
structure Grid where
  extents : List Nat
  cell : List Nat → Float

namespace Grid

/-- The extents that two arrays have together, both written from the last one on. -/
def joinExtents : List Nat → List Nat → Option (List Nat)
  | [], ys => some ys
  | xs, [] => some xs
  | x :: xs, y :: ys =>
      if x = y ∨ y = 1 then (joinExtents xs ys).map (x :: ·)
      else if x = 1 then (joinExtents xs ys).map (y :: ·)
      else none

/-- The extents that two arrays have together. -/
def join? (xs ys : List Nat) : Option (List Nat) :=
  (joinExtents xs.reverse ys.reverse).map List.reverse

/-- A cell of an array that goes with others: what an extent of one holds is there everywhere. -/
def spread (g : Grid) (place : List Nat) : Float :=
  let own := place.drop (place.length - g.extents.length)
  g.cell (List.zipWith (fun extent i => if extent = 1 then 0 else i) g.extents own)

/-- Cuts an extent down. -/
def cut (g : Grid) (axis : Nat) (keep : Nat → Except Fault Nat) : Except Fault Grid :=
  (keep (g.extents.getD axis 0)).map fun n => { g with extents := g.extents.set axis n }

/-- The product, cell by cell. -/
def times (g h : Grid) : Except Fault Grid :=
  match join? g.extents h.extents with
  | some extents => .ok ⟨extents, fun place => g.spread place * h.spread place⟩
  | none => .error .badExtents

/-- The matrix products, under the outer extents of both. -/
def product (g h : Grid) : Except Fault Grid :=
  match g.extents.reverse, h.extents.reverse with
  | inner :: rows :: left, cols :: inner' :: right =>
      match joinExtents left right with
      | some outer =>
          if inner ≠ inner' then .error .badExtents
          else .ok ⟨outer.reverse ++ [rows, cols], fun place =>
            let above := place.dropLast.dropLast
            let i := place.dropLast.getLast?.getD 0
            let j := place.getLast?.getD 0
            (List.range inner).foldl
              (fun acc l => acc + g.spread (above ++ [i, l]) * h.spread (above ++ [l, j])) 0.0⟩
      | none => .error .badExtents
  | _, _ => .error .badExtents

/-- The places of an array with some extents, in order. -/
def places : List Nat → List (List Nat)
  | [] => [[]]
  | n :: rest => (List.range n).flatMap fun i => (places rest).map (i :: ·)

/-- The cells of an array, in order. -/
def toList (g : Grid) : List Float := (places g.extents).map g.cell

/-- The number of a place among all places under some extents. -/
def offset (extents place : List Nat) : Nat :=
  (extents.zip place).foldl (fun acc (extent, i) => acc * extent + i) 0

end Grid

/-- Matrices of one shape under some outer extents, with the directions of each. -/
structure Stack where
  outer : List Nat
  rows : Nat
  cols : Nat
  directions : Array (Array LowRank.Direction)

namespace Stack

/-- The number of directions of a matrix. -/
def depth (s : Stack) : Nat := min s.rows s.cols

/-- Factors the matrices of an array. -/
def ofCells (outer : List Nat) (rows cols : Nat) (cells : Array Float) : Stack :=
  let count := outer.foldl (· * ·) 1
  let size := rows * cols
  { outer, rows, cols
    directions := (Array.range count).map fun k =>
      (LowRank.directions rows cols (cells.extract (k * size) (k * size + size))).toArray }

/-- The strength of a direction as it is held, its left side of length one, its right side. -/
def factor (s : Stack) (place : List Nat) (l : Nat) : Float × Array Float × Array Float :=
  match (s.directions.getD (Grid.offset s.outer place) #[])[l]? with
  | none => (0.0, #[], #[])
  | some d =>
      let strength := d.square.sqrt
      let left := if strength == 0.0 then d.left else d.left.map (· / strength)
      (LowRank.held strength, left, d.right)

/-- The left directions, as columns. -/
def left (s : Stack) : Grid :=
  ⟨s.outer ++ [s.rows, s.depth], fun place =>
    let l := place.getLast?.getD 0
    let i := place.dropLast.getLast?.getD 0
    (s.factor place.dropLast.dropLast l).2.1.getD i 0.0⟩

/-- The strengths. -/
def strengths (s : Stack) : Grid :=
  ⟨s.outer ++ [s.depth], fun place => (s.factor place.dropLast (place.getLast?.getD 0)).1⟩

/-- The right directions, as rows. -/
def right (s : Stack) : Grid :=
  ⟨s.outer ++ [s.depth, s.cols], fun place =>
    let j := place.getLast?.getD 0
    let l := place.dropLast.getLast?.getD 0
    (s.factor place.dropLast.dropLast l).2.2.getD j 0.0⟩

/-- The product of the factors, cut down along the extents that count one matrix's directions. -/
def principal (s : Stack) (keep : Nat → Except Fault Nat) : Except Fault Grid := do
  let left ← s.left.cut 1 keep
  let strengths ← s.strengths.cut 0 keep
  let scaled ← left.times strengths
  let right ← s.right.cut 0 keep
  scaled.product right

end Stack
end Plexus
