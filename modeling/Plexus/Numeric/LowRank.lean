/-!
# Best low-rank approximation

The approximation keeps the leading singular directions of a matrix.  They are found by
rotating pairs of columns until all columns are orthogonal to each other: the rotated
columns are then the singular values times the left directions, and the accumulated
rotations hold the right directions.  A matrix whose columns are orthogonal to begin with
is not rotated at all, so its directions come out exactly.  A matrix that is wider than
high is approximated through its transpose.  A matrix with an infinite cell has no
directions that are numbers, and a direction may be so strong that its strength is infinite.
-/

namespace Plexus
namespace LowRank

/-- A cell of a column; zero outside of it. -/
def cell (x : FloatArray) (i : Nat) : Float := if h : i < x.size then x.get i h else 0.0

/-- The inner product of two columns. -/
def inner (x y : FloatArray) : Float :=
  (min x.size y.size).fold (fun i _ acc => acc + cell x i * cell y i) 0.0

/-- `c * x + s * y`, cell by cell. -/
def combine (c s : Float) (x y : FloatArray) : FloatArray :=
  (min x.size y.size).fold (fun i _ out => out.push (c * cell x i + s * cell y i)) .empty

/-- A combination has a cell wherever both columns have one. -/
theorem size_combine (c s : Float) (x y : FloatArray) :
    (combine c s x y).size = min x.size y.size := by
  unfold combine
  generalize min x.size y.size = n
  induction n with
  | zero => rfl
  | succ n ih =>
      rw [Nat.fold_succ]
      simp only [FloatArray.push, FloatArray.size, Array.size_push] at ih ⊢
      omega

/-- Columns under rotation, and the rotations applied to the unit columns. -/
structure Rotated where
  columns : Array FloatArray
  directions : Array FloatArray
  /-- Whether the current pass has rotated anything. -/
  moved : Bool

/-- Two columns whose inner product is below this part of their lengths count as orthogonal. -/
def tolerance : Float := 1e-15

/-- Rotates columns `p` and `q` so that they become orthogonal. -/
def rotate (r : Rotated) (p q : Nat) : Rotated :=
  let x := r.columns.getD p .empty
  let y := r.columns.getD q .empty
  let a := inner x x
  let b := inner y y
  let g := inner x y
  if g.abs > tolerance * (a * b).sqrt then
    let z := (b - a) / (2.0 * g)
    let t := (if z < 0.0 then -1.0 else 1.0) / (z.abs + (1.0 + z * z).sqrt)
    let c := 1.0 / (1.0 + t * t).sqrt
    let s := c * t
    let turn (cols : Array FloatArray) :=
      let x := cols.getD p .empty
      let y := cols.getD q .empty
      (cols.setIfInBounds p (combine c (-s) x y)).setIfInBounds q (combine s c x y)
    { columns := turn r.columns, directions := turn r.directions, moved := true }
  else r

/-- One pass over all pairs of `n` columns. -/
def pass (n : Nat) (r : Rotated) : Rotated :=
  (List.range n).foldl
    (fun r p => (List.range n).foldl (fun r q => if p < q then rotate r p q else r) r)
    { r with moved := false }

/-- Passes until nothing moves, at most `fuel` of them. -/
def settle (n : Nat) : Nat → Rotated → Rotated
  | 0, r => r
  | fuel + 1, r =>
      let r := pass n r
      if r.moved then settle n fuel r else r

/-- The columns of a matrix given row by row. -/
def columnsOf (rows cols : Nat) (m : Array Float) : Array FloatArray :=
  (Array.range cols).map fun j => ⟨(Array.range rows).map fun i => m.getD (i * cols + j) 0.0⟩

/-- The unit columns. -/
def unitColumns (n : Nat) : Array FloatArray :=
  (Array.range n).map fun j => ⟨(Array.range n).map fun i => if i = j then 1.0 else 0.0⟩

/-- The transpose of a matrix, both row by row. -/
def transpose (rows cols : Nat) (m : Array Float) : Array Float :=
  (Array.range (cols * rows)).map fun slot => m.getD (slot % rows * cols + slot / rows) 0.0

/-- A direction of a matrix: its left side times its strength, and its right side. -/
structure Direction where
  left : Array Float
  right : Array Float

/-- The square of the strength of a direction. -/
def Direction.square (d : Direction) : Float := d.left.foldl (fun acc x => acc + x * x) 0.0

/-- What is infinite. -/
def infinite : Float := 1.0 / 0.0

/-- A strength as it is held, in single precision: one beyond it is infinite. -/
def held (strength : Float) : Float :=
  if strength.toFloat32.isInf then infinite else strength

/-- The left side times the strength as it is held. -/
def Direction.scaled (d : Direction) : Array Float :=
  let strength := d.square.sqrt
  if (held strength).isInf then d.left.map (· / strength * infinite) else d.left

/-- The directions of a matrix that is not wider than high, the strongest first. -/
def tallDirections (rows cols : Nat) (m : Array Float) : List Direction :=
  let r := settle cols 60 ⟨columnsOf rows cols m, unitColumns cols, false⟩
  let all := List.zipWith (fun x y => Direction.mk x.data y.data) r.columns.toList
    r.directions.toList
  all.mergeSort fun d e => !(d.square < e.square)

/-- What is not a number. -/
def unknown : Float := 0.0 / 0.0

/-- The directions of a matrix, the strongest first. -/
def directions (rows cols : Nat) (m : Array Float) : List Direction :=
  if m.any Float.isInf then
    List.replicate (min rows cols)
      ⟨Array.replicate rows unknown, Array.replicate cols unknown⟩
  else if cols ≤ rows then tallDirections rows cols m
  else
    (tallDirections cols rows (transpose rows cols m)).map fun d =>
      let strength := d.square.sqrt
      let scale (up : Bool) (x : Float) : Float :=
        if strength == 0.0 then x else if up then x * strength else x / strength
      ⟨d.right.map (scale true), d.left.map (scale false)⟩

/-- The best approximation of a rank to a matrix that is not wider than high. -/
def principalTall (rows cols rank : Nat) (m : Array Float) : Array Float :=
  let leading := ((tallDirections rows cols m).take rank).map fun d => (d.scaled, d.right)
  (Array.range (rows * cols)).map fun slot =>
    leading.foldl
      (fun acc (x, y) => acc + x.getD (slot / cols) 0.0 * y.getD (slot % cols) 0.0) 0.0

/-- The best approximation of a rank to a matrix, both row by row. -/
def principal (rows cols rank : Nat) (m : Array Float) : Array Float :=
  if m.any Float.isInf then Array.replicate (rows * cols) (if rank = 0 then 0.0 else unknown)
  else if cols ≤ rows then principalTall rows cols rank m
  else transpose cols rows (principalTall cols rows rank (transpose rows cols m))

/-- The number of directions that a rank keeps of all; a negative one counts down from all. -/
def kept (all : Nat) (rank : Int) : Nat :=
  if rank < 0 then (all + rank).toNat else min all rank.toNat

theorem kept_le (all : Nat) (rank : Int) : kept all rank ≤ all := by
  unfold kept
  split <;> omega

end LowRank
end Plexus
