import Plexus.Decimal.Binary

/-!
# Numbers as they are given

Settings and arguments keep a number in the form in which it was given: as a truth value,
as a whole number of any size, or as a real.  Numbers are compared by their exact values,
whatever their form; truth values count as 1 and 0.
-/

namespace Plexus

/-- A number in the form in which it was given. -/
inductive Number where
  | flag (b : Bool)
  | whole (n : Int)
  | real (x : Float)
deriving Inhabited

namespace Number

/-- The whole number that a truth value counts as. -/
def ofFlag (b : Bool) : Int := if b then 1 else 0

/-- The whole number that was given; reals are none, whatever their value. -/
def whole? : Number → Option Int
  | .flag b => some (ofFlag b)
  | .whole n => some n
  | .real _ => none

/-- The count that a number gives; a real and a negative number give none. -/
def count (n : Number) : Nat := (n.whole?.getD 0).toNat

@[simp] theorem count_whole (n : Int) : count (.whole n) = n.toNat := rfl

/-- Whether two numbers have the same value; what is not a number differs from all. -/
def same : Number → Number → Bool
  | .real x, .real y => x == y
  | .real x, .flag b => Decimal.toInt? x == some (ofFlag b)
  | .real x, .whole n => Decimal.toInt? x == some n
  | .flag b, .real y => Decimal.toInt? y == some (ofFlag b)
  | .whole m, .real y => Decimal.toInt? y == some m
  | .flag b, .flag c => b == c
  | .flag b, .whole n => ofFlag b == n
  | .whole m, .flag c => m == ofFlag c
  | .whole m, .whole n => m == n

/-- Whether a number is less than another one; what is not a number is neither less nor greater. -/
def less : Number → Number → Bool
  | .real x, .real y => x < y
  | .real x, .flag b => Decimal.lessThanInt x (ofFlag b)
  | .real x, .whole n => Decimal.lessThanInt x n
  | .flag b, .real y => Decimal.greaterThanInt y (ofFlag b)
  | .whole m, .real y => Decimal.greaterThanInt y m
  | .flag b, .flag c => ofFlag b < ofFlag c
  | .flag b, .whole n => ofFlag b < n
  | .whole m, .flag c => m < ofFlag c
  | .whole m, .whole n => m < n

/-- Whether a number is less than another one or has the same value. -/
def atMost (x y : Number) : Bool := x.less y || x.same y

@[simp] theorem less_whole_whole (m n : Int) : less (.whole m) (.whole n) = decide (m < n) := rfl

@[simp] theorem same_whole_whole (m n : Int) : same (.whole m) (.whole n) = (m == n) := rfl

theorem atMost_whole_whole (m n : Int) : atMost (.whole m) (.whole n) = decide (m ≤ n) := by
  rw [Bool.eq_iff_iff]
  simp only [atMost, less_whole_whole, same_whole_whole, Bool.or_eq_true, decide_eq_true_eq,
    beq_iff_eq]
  omega

end Number
end Plexus
