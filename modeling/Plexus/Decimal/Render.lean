import Plexus.Decimal.Shortest

/-!
# Texts of numbers

Three ways of writing a double: with a fixed number of significant digits, with a
fixed number of places after the point, and with the fewest digits that read back.
What is left to a convention is gathered in `Spelling` and in the constants beside it.
-/

namespace Plexus
namespace Decimal

/-- How a convention writes what has no digits, and where it leaves positional notation. -/
structure Spelling where
  nan : String
  infinity : String
  /-- The least power of ten of a leading digit that is written positionally. -/
  lowest : Int
  /-- The first power of ten of a leading digit that is no longer written positionally. -/
  limit : Int

/-- The convention of printed texts: positional from `10 ^ -4` up to `10 ^ 16`. -/
def Spelling.plain : Spelling := ⟨"nan", "inf", -4, 16⟩

/-- The convention of graph documents: as printed texts, with the names of JSON dialects. -/
def Spelling.document : Spelling := ⟨"NaN", "Infinity", -4, 16⟩

/-- A minus sign, or nothing. -/
def sign (negative : Bool) : String := if negative then "-" else ""

/-- The digits of `n`, with zeros in front up to `width`. -/
def padded (width n : Nat) : List Char :=
  let digits := Nat.toDigits 10 n
  List.replicate (width - digits.length) '0' ++ digits

/-- An exponent as it is written after the mark: a sign and at least two digits. -/
def exponentText (e : Int) : String :=
  (if e < 0 then "-" else "+") ++ String.ofList (padded 2 e.natAbs)

/-- A point after the first digit, if more digits follow. -/
def pointAfterFirst : List Char → List Char
  | [] => []
  | [c] => [c]
  | c :: rest => c :: '.' :: rest

/-- The text of an exceptional value, or the text that `write` makes of a finite one. -/
def withSign (s : Spelling) (x : Float) (write : Bool → Nat → Int → String) : String :=
  match Binary.ofFloat x with
  | .nan => s.nan
  | .infinite negative => sign negative ++ s.infinity
  | .finite negative mantissa exponent => write negative mantissa exponent

/-- Scientific notation with `digits` significant digits. -/
def scientific (digits : Nat) (x : Float) : String :=
  withSign .plain x fun negative mantissa exponent =>
    if mantissa = 0 then
      sign negative ++ String.ofList (pointAfterFirst (padded digits 0)) ++ "e+00"
    else
      let d := (Fraction.ofDyadic mantissa exponent).significant digits
      sign negative ++ String.ofList (pointAfterFirst (padded digits d.coefficient)) ++ "e" ++
        exponentText (d.exponent + (digits : Int) - 1)

/--
Positional notation with `places` digits after the point.  A value that rounds to
zero keeps its sign only if `zeroSign` says so.
-/
def fixed (places : Nat) (zeroSign : Bool) (x : Float) : String :=
  withSign .plain x fun negative mantissa exponent =>
    let n := (Fraction.ofDyadic mantissa exponent).roundAt 10 (-(places : Int))
    let whole := Nat.toDigits 10 (n / 10 ^ places)
    let part := if places = 0 then [] else '.' :: padded places (n % 10 ^ places)
    sign (negative && (zeroSign || n != 0)) ++ String.ofList (whole ++ part)

/-- A decimal whose leading digit has power `lead`, in positional notation. -/
def positional (digits : List Char) (lead : Int) : List Char :=
  if lead < 0 then
    '0' :: '.' :: (List.replicate ((-lead).toNat - 1) '0' ++ digits)
  else
    let width := lead.toNat + 1
    let whole := digits.take width ++ List.replicate (width - digits.length) '0'
    let rest := digits.drop width
    whole ++ '.' :: (if rest.isEmpty then ['0'] else rest)

/-- The decimal `d`, positionally or with an exponent as the convention says. -/
def Spelling.write (s : Spelling) (d : Digits) : List Char :=
  let digits := Nat.toDigits 10 d.coefficient
  let lead := d.exponent + (digits.length : Int) - 1
  if s.lowest ≤ lead ∧ lead < s.limit then positional digits lead
  else pointAfterFirst digits ++ 'e' :: (exponentText lead).toList

/-- The fewest digits that read back as the same double. -/
def shortest (s : Spelling) (x : Float) : String :=
  withSign s x fun negative mantissa exponent =>
    if mantissa = 0 then sign negative ++ "0.0"
    else sign negative ++ String.ofList (s.write (shortestDigits mantissa exponent))

end Decimal
end Plexus
