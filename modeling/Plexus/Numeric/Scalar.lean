import Plexus.Graph.Activation
import Plexus.Numeric.Precision

/-!
# Scalars

Weights, biases and signals are scalars.  The network code is written for any type with
the operations of `Scalar`, and assumes no law of them: sums are left folds in a fixed
order, so what is proved about the code holds of rounded arithmetic as well as of exact
arithmetic.
-/

namespace Plexus

/-- The operations of the numbers that a network computes with. -/
class Scalar (α : Type) where
  zero : α
  one : α
  add : α → α → α
  sub : α → α → α
  mul : α → α → α
  div : α → α → α
  sqrt : α → α
  /-- Numeric equality. -/
  same : α → α → Bool
  less : α → α → Bool
  ofNat : Nat → α
  /-- The scalar nearest to a double. -/
  ofFloat : Float → α
  /-- A scalar as a double. -/
  toFloat : α → Float
  /-- Rounds to half precision. -/
  half : α → α
  /-- Rounds to the upper half of single precision. -/
  brain : α → α
  /-- An activation function. -/
  activate : Activation → α → α
  /-- The derivative of an activation function, in terms of the function's value. -/
  slope : Activation → α → α
  /-- The best approximation of a rank to a matrix of some rows and columns, row by row. -/
  principal : (rows cols rank : Nat) → Array α → Array α

namespace Scalar

variable {α : Type} [Scalar α]

/-- Rounds a scalar to a storage precision. -/
@[specialize] def store : Precision → α → α
  | .fp32, x => x
  | .fp16, x => half x
  | .bf16, x => brain x

@[simp] theorem store_fp32 (x : α) : store .fp32 x = x := rfl

/-- Whether a scalar has been rounded to a storage precision. -/
def Rounded (p : Precision) (x : α) : Prop := ∃ y, x = store p y

/-- A scalar that is not a number, not even equal to itself. -/
@[specialize] def isNaN (x : α) : Bool := !same x x

/-- Whether a scalar is a number and not infinite. -/
def isFinite (x : α) : Bool := (toFloat x).isFinite

/-- Whether a scalar differs from zero; what is not a number does. -/
def nonzero (x : α) : Bool := !same x zero

/-- The target value that means "no supervision at this slot". -/
def noTarget : α := ofFloat (-999.0)

/-- Whether a target supervises its slot. -/
@[specialize] def supervised (target : α) : Bool := !same target noTarget

/-- `f 0 + f 1 + ... + f (n - 1)`, added to zero from left to right. -/
@[specialize] def sumTo (n : Nat) (f : Nat → α) : α :=
  match n with
  | 0 => zero
  | n + 1 => add (sumTo n f) (f n)

@[simp] theorem sumTo_zero (f : Nat → α) : sumTo 0 f = zero := rfl

@[simp] theorem sumTo_succ (n : Nat) (f : Nat → α) : sumTo (n + 1) f = add (sumTo n f) (f n) := rfl

theorem sumTo_congr {n : Nat} {f g : Nat → α} (h : ∀ i < n, f i = g i) : sumTo n f = sumTo n g := by
  induction n with
  | zero => rfl
  | succ n ih => rw [sumTo_succ, sumTo_succ, ih fun i hi => h i (by omega), h n (by omega)]

/-- The sum of a list, from left to right. -/
def sumList (xs : List α) : α := xs.foldl add zero

/-- A cell of a buffer; zero outside of it. -/
@[specialize] def cell (buffer : Array α) (i : Nat) : α := buffer[i]?.getD zero

/-- The inner product of `n` cells of `x` from `i` on with `n` cells of `y` from `j` on. -/
@[specialize] def dot (n : Nat) (x : Array α) (i : Nat) (y : Array α) (j : Nat) : α :=
  sumTo n fun s => mul (cell x (i + s)) (cell y (j + s))

/-- The bytes of a cell of a buffer. -/
def bytes : Nat := 4

/-- Adds numbers to neighbouring cells of a buffer, from a place on. -/
@[specialize] def addFrom (buffer : Array α) (i : Nat) : List α → Array α
  | [] => buffer
  | x :: xs => addFrom (buffer.modify i fun y => add y x) (i + 1) xs

/-- A buffer of zeros. -/
def zeros (n : Nat) : Array α := Array.replicate n zero

@[simp] theorem size_zeros (n : Nat) : (zeros n : Array α).size = n := by simp [zeros]

end Scalar

/-- An operand as it was handed over: its cells, or why it could not be read. -/
abbrev Operand (α : Type) := Except Fault (Array α)

end Plexus
