import Mathlib.Algebra.BigOperators.Group.List.Basic
import Mathlib.Algebra.Order.Ring.Rat
import Plexus.Numeric.Single

/-!
# Exact arithmetic

The network code assumes no law of its scalars.  With scalars that are added and multiplied
exactly, its left folds are sums.
-/

namespace Plexus

/-- Scalars that are added and multiplied as in a ring. -/
class Exact (α : Type) [Scalar α] [CommSemiring α] : Prop where
  zero_eq : (Scalar.zero : α) = 0
  add_eq : ∀ x y : α, Scalar.add x y = x + y
  mul_eq : ∀ x y : α, Scalar.mul x y = x * y

namespace Exact

variable {α : Type} [Scalar α] [CommSemiring α] [Exact α]

theorem sumTo_eq_sum (n : Nat) (f : Nat → α) :
    Scalar.sumTo n f = ((List.range n).map f).sum := by
  induction n with
  | zero => exact zero_eq
  | succ n ih =>
      rw [Scalar.sumTo_succ, ih, add_eq, List.range_succ, List.map_append, List.sum_append,
        List.map_singleton, List.sum_singleton]

theorem dot_eq_sum (n : Nat) (x : Array α) (i : Nat) (y : Array α) (j : Nat) :
    Scalar.dot n x i y j =
      ((List.range n).map fun s => Scalar.cell x (i + s) * Scalar.cell y (j + s)).sum := by
  rw [Scalar.dot, sumTo_eq_sum]
  congr 1
  apply List.map_congr_left
  intro s _
  exact mul_eq _ _

end Exact

theorem map_eq_map_range {γ δ : Type} {l : List γ} {f : γ → δ} {g : Nat → δ}
    (h : ∀ i u, l[i]? = some u → f u = g i) :
    l.map f = (List.range l.length).map g := by
  apply List.ext_getElem?
  intro i
  rw [List.getElem?_map, List.getElem?_map]
  by_cases hi : i < l.length
  · rw [List.getElem?_range hi, List.getElem?_eq_getElem hi, Option.map_some, Option.map_some,
      h i _ (List.getElem?_eq_getElem hi)]
  · rw [List.getElem?_eq_none (by omega), List.getElem?_eq_none (by simpa using hi)]
    rfl

/-!
## Rational numbers
-/

namespace Rational

open Float.Model (UnpackedFloat)

/-- What a double comes to in single precision; zero if that is not finite. -/
def ofFloat (x : Float) : Rat :=
  match (Single.narrow x).toModel.unpack with
  | .finite sign mantissa exponent _ => sign.apply mantissa * (2 : Rat) ^ exponent
  | _ => 0

/-- A double close to a rational number. -/
def toFloat (x : Rat) : Float := Float.ofInt x.num / Float.ofNat x.den

/-- A rational number close to a square root. -/
def sqrt (x : Rat) : Rat := (x.num.toNat * x.den).sqrt / x.den

/-- The absolute value. -/
def abs (x : Rat) : Rat := max x (-x)

/-- The activation functions; one of the same shape stands in for one that is not rational. -/
def activate : Activation → Rat → Rat
  | .tanh, x => x / (1 + abs x)
  | .relu, x => max x 0
  | .sigmoid, x => (1 + x / (1 + abs x)) / 2
  | .linear, x => x

/-- The derivatives of the activation functions, in terms of the function's value. -/
def slope : Activation → Rat → Rat
  | .tanh, y => (1 - abs y) ^ 2
  | .relu, y => if 0 < y then 1 else 0
  | .sigmoid, y => (1 - abs (2 * y - 1)) ^ 2 / 2
  | .linear, _ => 1

end Rational

/-- Rational numbers are rounded when they are made, and never again. -/
instance : Scalar Rat where
  zero := 0
  one := 1
  add := (· + ·)
  sub := (· - ·)
  mul := (· * ·)
  div := (· / ·)
  sqrt := Rational.sqrt
  same x y := decide (x = y)
  less x y := decide (x < y)
  ofNat n := n
  ofFloat := Rational.ofFloat
  toFloat := Rational.toFloat
  half := id
  brain := id
  activate := Rational.activate
  slope := Rational.slope
  principal _ _ _ m := m

instance : Exact Rat where
  zero_eq := rfl
  add_eq := fun _ _ => rfl
  mul_eq := fun _ _ => rfl

end Plexus
