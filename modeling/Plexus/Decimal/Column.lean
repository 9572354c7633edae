import Plexus.Decimal.Render

/-!
# Reals in text columns

A text column of a table holds a real as a text of at most fifteen significant digits.  The
digits are not those of the nearest decimal: they are worked out in a floating-point format
with 64 significant bits, so a real half way between two decimals may go either way.  The
real is first scaled to one digit before the point, then half a unit of the last place is
added, and then the digits are cut off one after the other.  `Extended` is that format.
-/

namespace Plexus
namespace Decimal

/-- A nonnegative number `mantissa * 2 ^ exponent` with at most 64 significant bits. -/
structure Extended where
  mantissa : Nat
  exponent : Int
deriving DecidableEq, Inhabited

namespace Extended

/-- The number nearest to a fraction, ties to even. -/
def ofFraction (f : Fraction) : Extended :=
  if f.num = 0 then ⟨0, 0⟩
  else
    let power := f.binaryExponent - 63
    ⟨f.roundAt 2 power, power⟩

/-- The exact value of a number. -/
def toFraction (x : Extended) : Fraction := Fraction.ofDyadic x.mantissa x.exponent

/-- The number that a double is, up to its sign; zero for one that is not finite. -/
def ofFloat (x : Float) : Extended :=
  match Binary.ofFloat x with
  | .finite _ mantissa exponent => ⟨mantissa, exponent⟩
  | _ => ⟨0, 0⟩

/-- The rounded sum. -/
def add (x y : Extended) : Extended :=
  let f := x.toFraction
  let g := y.toFraction
  ofFraction ⟨f.num * g.den + g.num * f.den, f.den * g.den⟩

/-- The rounded product. -/
def mul (x y : Extended) : Extended :=
  ofFraction (Fraction.ofDyadic (x.mantissa * y.mantissa) (x.exponent + y.exponent))

/-- The rounded quotient. -/
def div (x y : Extended) : Extended :=
  let f := x.toFraction
  let g := y.toFraction
  ofFraction ⟨f.num * g.den, f.den * g.num⟩

/-- Whether a number is less than another one. -/
def less (x y : Extended) : Bool :=
  let f := x.toFraction
  let g := y.toFraction
  f.num * g.den < g.num * f.den

/-- A number together with the power of ten that it is to be multiplied by. -/
abbrev Scaled := Extended × Int

/--
Multiplies `scale` by `step`, which stands for `10 ^ power`, as long as the value does not
fall below it, at most `fuel` times.
-/
def climb (value step : Extended) (power : Nat) : Nat → Scaled → Scaled
  | 0, s => s
  | fuel + 1, (scale, e) =>
      let next := step.mul scale
      if value.less next then (scale, e) else climb value step power fuel (next, e + (power : Int))

/-- The greatest scale that a value reaches, found in steps of three widths. -/
def scaleOf (value : Extended) : Scaled :=
  let hundreds := climb value (ofFloat 1e100) 100 4 (⟨1, 0⟩, 0)
  let tens := climb value (ofFloat 1e10) 10 11 hundreds
  climb value (ofFloat 10.0) 1 11 tens

/-- Multiplies a number by `step`, which stands for `10 ^ power`, until it reaches `limit`. -/
def lift (limit step : Extended) (power : Nat) : Nat → Scaled → Scaled
  | 0, s => s
  | fuel + 1, (value, e) =>
      if value.less limit then lift limit step power fuel (value.mul step, e - (power : Int))
      else (value, e)

/-- A positive number with one digit before the point, and its power of ten. -/
def normalize (value : Extended) : Scaled :=
  let (scale, e) := scaleOf value
  let coarse := lift (ofFloat 1e-8) (ofFloat 1e8) 8 50 (value.div scale, e)
  lift ⟨1, 0⟩ (ofFloat 10.0) 1 10 coarse

/-- Half a unit of the fifteenth digit. -/
def halfUnit : Extended := ofFloat (5.0e-05 * 1.0e-10)

/-- Adds half a unit of the fifteenth digit. -/
def roundUp (s : Scaled) : Scaled :=
  let value := s.1.add halfUnit
  if value.less (ofFloat 10.0) then (value, s.2) else (value.mul (ofFloat 0.1), s.2 + 1)

/-- Cuts off digits, the first of them before the point. -/
def digits : Nat → Extended → List Nat
  | 0, _ => []
  | count + 1, x =>
      let f := x.toFraction
      let digit := f.num / f.den
      digit :: digits count (ofFraction ⟨(f.num - digit * f.den) * 10, f.den⟩)

end Extended

/-- The fifteen digits that a text column keeps of a positive real. -/
def columnDigits (x : Extended) : Digits :=
  let (value, lead) := Extended.roundUp (Extended.normalize x)
  let coefficient := (Extended.digits 15 value).foldl (fun n d => 10 * n + d) 0
  (Digits.mk coefficient (lead - 14)).trim 20

/--
The text that a column of texts holds for a real: always with a point, positionally where
the leading digit has a power of ten from -4 up to 14.  Zero has no sign there.
-/
def columnText (x : Float) : String :=
  withSign ⟨"", "Inf", -4, 15⟩ x fun negative mantissa exponent =>
    if mantissa = 0 then "0.0"
    else
      let d := columnDigits ⟨mantissa, exponent⟩
      let digits := Nat.toDigits 10 d.coefficient
      let lead := d.exponent + (digits.length : Int) - 1
      let text :=
        if -4 ≤ lead ∧ lead < 15 then positional digits lead
        else
          let shown := if digits.length = 1 then digits ++ ['0'] else digits
          pointAfterFirst shown ++ 'e' :: (exponentText lead).toList
      sign negative ++ String.ofList text

end Decimal
end Plexus
