import Plexus.Decimal.Binary
import Plexus.Text.Blank
import Plexus.Text.Digit

/-!
# Reading numerals

A numeral as people type it: blanks around it, an optional sign, digits of any script
with a point and an exponent, single underscores between digits, or one of the words
for infinity and for what is not a number, in any case.
-/

namespace Plexus
namespace Decimal

/-- An ASCII decimal digit. -/
def isDigit (c : Char) : Bool := '0' ≤ c && c ≤ '9'

/-- The number that a list of ASCII digits stands for. -/
def natOfDigits (cs : List Char) : Nat :=
  cs.foldl (fun n c => 10 * n + (c.toNat - 48)) 0

/-- A sign in front, if there is one: whether it is a minus, and what follows. -/
def splitSign : List Char → Bool × List Char
  | '-' :: rest => (true, rest)
  | '+' :: rest => (false, rest)
  | cs => (false, cs)

/-- The exponent of a numeral: nothing, or a mark, an optional sign and digits. -/
def exponentOf : List Char → Option Int
  | [] => some 0
  | c :: rest =>
      let (negative, digits) := splitSign rest
      if (c = 'e' ∨ c = 'E') ∧ !digits.isEmpty ∧ digits.all isDigit then
        let n : Int := natOfDigits digits
        some (if negative then -n else n)
      else none

/-- A numeral without sign: digits, a point and digits, an exponent. -/
def magnitude (negative : Bool) (cs : List Char) : Option Float :=
  let whole := cs.takeWhile isDigit
  let afterWhole := cs.dropWhile isDigit
  let (part, rest) :=
    match afterWhole with
    | '.' :: more => (more.takeWhile isDigit, more.dropWhile isDigit)
    | _ => ([], afterWhole)
  if whole.isEmpty ∧ part.isEmpty then none
  else
    (exponentOf rest).map fun e =>
      ofDecimal negative (natOfDigits (whole ++ part)) (e - (part.length : Int))

/--
Takes out single underscores that have a digit on both sides; `none` for any other
underscore.
-/
def dropUnderscores : Option Char → List Char → Option (List Char)
  | previous, [] => if previous = some '_' then none else some []
  | previous, c :: rest =>
      if c = '_' then
        if (previous.map isDigit).getD false then dropUnderscores (some c) rest else none
      else if previous = some '_' ∧ !isDigit c then none
      else (dropUnderscores (some c) rest).map (c :: ·)

/-- Writes a digit of another script as an ASCII digit. -/
def asciiDigit (c : Char) : Char :=
  if c.toNat < 128 then c
  else match Text.digitValue? c with
    | some d => Char.ofNat (48 + d)
    | none => c

/-- The double that a numeral stands for; `none` if the text is no numeral. -/
def read? (s : String) : Option Float :=
  (dropUnderscores none ((Text.trimBlanks s.toList).map asciiDigit)).bind fun cs =>
    let (negative, body) := splitSign cs
    let word := String.ofList (body.map Char.toLower)
    if word = "nan" then some (0.0 / 0.0)
    else if word = "inf" ∨ word = "infinity" then
      some ((Fraction.mk (10 ^ 400) 1).nearest negative)
    else magnitude negative body

end Decimal
end Plexus
