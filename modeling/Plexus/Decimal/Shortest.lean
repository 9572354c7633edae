import Plexus.Decimal.Binary

/-!
# The fewest digits that read back

A double is the nearest one to every real number of an interval around it.  The
shortest text of the double is the decimal with the fewest digits in that interval
and, of those, the nearest to the double.  On each decimal grid only the two
neighbours of the double need a test: if any point of the grid lies in the
interval, one of the two does.
-/

namespace Plexus
namespace Decimal

/-- A decimal `coefficient * 10 ^ exponent`. -/
structure Digits where
  coefficient : Nat
  exponent : Int
deriving DecidableEq, Inhabited

/--
The reals that round to one double, over a common denominator: from `low / den`
to `high / den`, with the double at `value / den`.
-/
structure Interval where
  low : Nat
  value : Nat
  high : Nat
  den : Nat
  closed : Bool
deriving DecidableEq, Inhabited

/--
The interval of `mantissa * 2 ^ exponent`.  It reaches half way to each neighbour,
and the neighbour below a power of two is twice as near.  The ends belong to it
when the mantissa is even.
-/
def Interval.around (mantissa : Nat) (exponent : Int) : Interval :=
  let step := Fraction.ofDyadic 1 (exponent - 2)
  let down := if mantissa = 2 ^ 52 ∧ exponent ≠ -1074 then 1 else 2
  { low := (4 * mantissa - down) * step.num
    value := 4 * mantissa * step.num
    high := (4 * mantissa + 2) * step.num
    den := step.den
    closed := mantissa % 2 == 0 }

/-- The value of a bound of the interval, measured in units of `10 ^ power / den'`. -/
def Interval.units (i : Interval) (bound : Nat) (power : Int) : Fraction :=
  if 0 ≤ power then ⟨bound, i.den * 10 ^ power.toNat⟩
  else ⟨bound * 10 ^ (-power).toNat, i.den⟩

/-- Whether `c * 10 ^ power` lies in the interval. -/
def Interval.contains (i : Interval) (c : Nat) (power : Int) : Bool :=
  let low := i.units i.low power
  let high := i.units i.high power
  if i.closed then low.num ≤ c * low.den && c * high.den ≤ high.num
  else low.num < c * low.den && c * high.den < high.num

/-- The point of the grid `10 ^ power` that is in the interval and nearest to the double. -/
def Interval.onGrid (i : Interval) (power : Int) : Option Nat :=
  let v := i.units i.value power
  let below := v.num / v.den
  match i.contains below power, i.contains (below + 1) power with
  | true, true => some (roundHalfEven v.num v.den)
  | true, false => some below
  | false, true => some (below + 1)
  | false, false => none

/-- Drops the zeros at the end of a coefficient; at most `fuel` of them. -/
def Digits.trim : Nat → Digits → Digits
  | 0, d => d
  | fuel + 1, d =>
      if d.coefficient ≠ 0 ∧ d.coefficient % 10 = 0 then
        Digits.trim fuel ⟨d.coefficient / 10, d.exponent + 1⟩
      else d

/-- The decimal with exactly `count` digits nearest to a positive fraction, ties to even. -/
def Fraction.significant (f : Fraction) (count : Nat) : Digits :=
  let lead := f.decimalExponent
  let power := lead - ((count : Int) - 1)
  let c := f.roundAt 10 power
  if c = 10 ^ count then ⟨10 ^ (count - 1), power + 1⟩ else ⟨c, power⟩

/-- The shortest decimal that reads back as the positive double `mantissa * 2 ^ exponent`. -/
def shortestDigits (mantissa : Nat) (exponent : Int) : Digits :=
  let f := Fraction.ofDyadic mantissa exponent
  let i := Interval.around mantissa exponent
  let lead := f.decimalExponent
  let tries := (List.range 17).findSome? fun (extra : Nat) =>
    let power := lead - (extra : Int)
    (i.onGrid power).map fun c => Digits.mk c power
  (tries.getD (f.significant 17)).trim 20

end Decimal
end Plexus
