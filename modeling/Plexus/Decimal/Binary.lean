/-!
# Doubles as exact numbers

A finite double is `mantissa * 2 ^ exponent`, up to its sign.  Everything that
this library says about the text of a number is decided on that exact value, in
natural-number arithmetic, so no rounding happens except where a rule asks for it.
Back from exact numbers, `nearest` is the double closest to a fraction.
-/

namespace Plexus

-- Powers of whole numbers are those of the core library, whatever else is in scope.
attribute [instance (20000), default_instance 20000] instPowNat

namespace Decimal

/-- What a double stands for. -/
inductive Binary where
  | nan
  | infinite (negative : Bool)
  | finite (negative : Bool) (mantissa : Nat) (exponent : Int)
deriving DecidableEq, Inhabited

/-- Reads the sign, exponent and fraction fields of a double. -/
def Binary.ofFloat (x : Float) : Binary :=
  let bits : Nat := x.toBits.toNat
  let negative : Bool := bits / 2 ^ 63 % 2 == 1
  let biased : Nat := bits / 2 ^ 52 % 2 ^ 11
  let fraction : Nat := bits % 2 ^ 52
  if biased = 2047 then
    if fraction = 0 then .infinite negative else .nan
  else if biased = 0 then
    .finite negative fraction (-1074)
  else
    .finite negative (fraction + 2 ^ 52) ((biased : Int) - 1075)

/-- A nonnegative fraction. -/
structure Fraction where
  num : Nat
  den : Nat
deriving DecidableEq, Inhabited

/-- The fraction `mantissa * 2 ^ exponent`. -/
def Fraction.ofDyadic (mantissa : Nat) (exponent : Int) : Fraction :=
  if 0 ≤ exponent then ⟨mantissa * 2 ^ exponent.toNat, 1⟩
  else ⟨mantissa, 2 ^ (-exponent).toNat⟩

/-- The fraction `coefficient * 10 ^ exponent`. -/
def Fraction.ofDecimal (coefficient : Nat) (exponent : Int) : Fraction :=
  if 0 ≤ exponent then ⟨coefficient * 10 ^ exponent.toNat, 1⟩
  else ⟨coefficient, 10 ^ (-exponent).toNat⟩

/-- The whole number nearest to `num / den`; a tie goes to the even neighbour. -/
def roundHalfEven (num den : Nat) : Nat :=
  let quotient := num / den
  let rest := num % den
  if 2 * rest < den then quotient
  else if den < 2 * rest then quotient + 1
  else if quotient % 2 = 0 then quotient
  else quotient + 1

/-- The whole number nearest to `f / base ^ power`, ties to even. -/
def Fraction.roundAt (f : Fraction) (base : Nat) (power : Int) : Nat :=
  if 0 ≤ power then roundHalfEven f.num (f.den * base ^ power.toNat)
  else roundHalfEven (f.num * base ^ (-power).toNat) f.den

/-- The power of two at or just below a positive fraction. -/
def Fraction.binaryExponent (f : Fraction) : Int :=
  let guess : Int := (f.num.log2 : Int) - (f.den.log2 : Int)
  let reaches :=
    if 0 ≤ guess then f.den * 2 ^ guess.toNat ≤ f.num
    else f.den ≤ f.num * 2 ^ (-guess).toNat
  if reaches then guess else guess - 1

/-- The bits of positive infinity. -/
def infinityBits : Nat := 2047 * 2 ^ 52

/--
The bits of the double nearest to a fraction, ties to even; a fraction too large
for a double gives the bits of infinity.  A mantissa that rounds up to the next
power of two carries into the exponent field, which is exactly the next double.
-/
def Fraction.nearestBits (f : Fraction) : Nat :=
  if f.num = 0 then 0
  else
    let power := max (f.binaryExponent - 52) (-1074)
    let mantissa := f.roundAt 2 power
    let bits :=
      if mantissa < 2 ^ 52 then mantissa
      else (power + 1075).toNat * 2 ^ 52 + (mantissa - 2 ^ 52)
    min bits infinityBits

/-- The double nearest to a fraction, with the given sign. -/
def Fraction.nearest (f : Fraction) (negative : Bool) : Float :=
  Float.ofBits (UInt64.ofNat (f.nearestBits + if negative then 2 ^ 63 else 0))

/-- The double nearest to a whole number; `none` when none is near enough. -/
def nearestInt? (n : Int) : Option Float :=
  let f : Fraction := ⟨n.natAbs, 1⟩
  if f.nearestBits < infinityBits then some (f.nearest (n < 0)) else none

/-- The whole number that a double is, if it is one. -/
def toInt? (x : Float) : Option Int :=
  match Binary.ofFloat x with
  | .finite negative mantissa exponent =>
      let f := Fraction.ofDyadic mantissa exponent
      if f.num % f.den = 0 then
        let n : Int := (f.num / f.den : Nat)
        some (if negative then -n else n)
      else none
  | _ => none

/-- Whether a double is less than a whole number; what is not a number is not. -/
def lessThanInt (x : Float) (n : Int) : Bool :=
  match Binary.ofFloat x with
  | .nan => false
  | .infinite negative => negative
  | .finite negative mantissa exponent =>
      let f := Fraction.ofDyadic mantissa exponent
      let size : Int := f.num
      (if negative then -size else size) < n * (f.den : Int)

/-- Whether a double is greater than a whole number; what is not a number is not. -/
def greaterThanInt (x : Float) (n : Int) : Bool :=
  match Binary.ofFloat x with
  | .nan => false
  | .infinite negative => !negative
  | .finite negative mantissa exponent =>
      let f := Fraction.ofDyadic mantissa exponent
      let size : Int := f.num
      n * (f.den : Int) < (if negative then -size else size)

/-- Number of decimal digits of a natural number. -/
def digitCount (n : Nat) : Nat :=
  (Nat.toDigits 10 n).length

/-- The power of ten at or just below a positive fraction. -/
def Fraction.decimalExponent (f : Fraction) : Int :=
  if f.den ≤ f.num then (digitCount (f.num / f.den) : Int) - 1
  else
    let below := digitCount (f.den / f.num)
    if f.den ≤ f.num * 10 ^ (below - 1) then -((below - 1 : Nat) : Int) else -(below : Int)

/--
The double nearest to `coefficient * 10 ^ exponent`.  Magnitudes that are far
outside the range of doubles are settled by their digit count alone, so an
exponent of any size costs nothing.
-/
def ofDecimal (negative : Bool) (coefficient : Nat) (exponent : Int) : Float :=
  let magnitude := exponent + (digitCount coefficient : Int)
  if coefficient = 0 ∨ magnitude < -400 then (Fraction.mk 0 1).nearest negative
  else if 400 < magnitude then (Fraction.mk (10 ^ 400) 1).nearest negative
  else (Fraction.ofDecimal coefficient exponent).nearest negative

end Decimal
end Plexus
