import Plexus.Decimal.Numeral
import Plexus.Value.Number

/-!
# Seeds

A seed is a whole number or a list of seeds, nested to any depth.  What counts are the
words of its numbers, joined from left to right: two seeds with the same words seed
alike.  Inside a list a whole number may also be written as a text, decimal or, after
`0x`, hexadecimal, and an object stands for the list of its keys.
-/

namespace Plexus
namespace Seed

/-- The words of a natural number, least significant first; at least one. -/
def wordsOf (n : Nat) : List UInt32 :=
  if h : n < 2 ^ 32 then [UInt32.ofNat n] else UInt32.ofNat (n % 2 ^ 32) :: wordsOf (n / 2 ^ 32)
termination_by n
decreasing_by omega

/-- The words determine the number. -/
theorem foldr_wordsOf (n : Nat) :
    (wordsOf n).foldr (fun word rest => word.toNat + 2 ^ 32 * rest) 0 = n := by
  fun_induction wordsOf n with
  | case1 n h =>
      rw [List.foldr_cons, List.foldr_nil, UInt32.toNat_ofNat', Nat.mod_eq_of_lt h, Nat.mul_zero,
        Nat.add_zero]
  | case2 n h ih =>
      rw [List.foldr_cons, ih, UInt32.toNat_ofNat',
        Nat.mod_eq_of_lt (Nat.mod_lt n (by decide : 0 < 2 ^ 32)), Nat.mod_add_div]

/-- The words of a whole number, which must not be negative. -/
def ofInt (n : Int) : Except Fault (List UInt32) :=
  if n < 0 then .error .badValue else .ok (wordsOf n.toNat)

/-- The value of a hexadecimal digit. -/
def hexValue? (c : Char) : Option Nat :=
  if Decimal.isDigit c then some (c.toNat - 48)
  else if 'a' ≤ c ∧ c ≤ 'f' then some (c.toNat - 87)
  else if 'A' ≤ c ∧ c ≤ 'F' then some (c.toNat - 55)
  else none

/-- The value of a decimal digit. -/
def decimalValue? (c : Char) : Option Nat :=
  if Decimal.isDigit c then some (c.toNat - 48) else none

/-- The values of digits, with single underscores between them at most. -/
def digits? (value? : Char → Option Nat) : List Char → Option (List Nat)
  | [] => none
  | [c] => (value? c).map fun d => [d]
  | c :: '_' :: rest => (value? c).bind fun d => (digits? value? rest).map (d :: ·)
  | c :: rest => (value? c).bind fun d => (digits? value? rest).map (d :: ·)

/-- The number that digits stand for, the most significant first. -/
def ofDigits (base : Nat) (digits : List Nat) : Nat := digits.foldl (fun n d => base * n + d) 0

/-- The most digits that a decimal number in a seed has. -/
def maxDecimalDigits : Nat := 4300

/-- The number after `0x`; an underscore may stand in front of the digits. -/
def hexadecimal? (cs : List Char) : Option Nat :=
  let cs := match cs with
    | '_' :: rest => rest
    | _ => cs
  (digits? hexValue? cs).map (ofDigits 16)

/-- A decimal number of a length that is allowed. -/
def decimal? (cs : List Char) : Option Nat :=
  (digits? decimalValue? cs).bind fun digits =>
    if digits.length ≤ maxDecimalDigits then some (ofDigits 10 digits) else none

/-- The number that a text gives, with blanks after it and digits of any script but the first. -/
def numberOf? (s : String) : Option Nat :=
  let cs := (Text.trimBlanks s.toList).map Decimal.asciiDigit
  match s.toList with
  | '0' :: 'x' :: _ => hexadecimal? (cs.drop 2)
  | c :: _ => if Decimal.isDigit c then decimal? cs else none
  | [] => none

/-- The words of a text. -/
def ofText (s : String) : Except Fault (List UInt32) :=
  match numberOf? s with
  | some n => .ok (wordsOf n)
  | none => .error .badValue

mutual

/-- The words of an item of a list. -/
def ofItem : Value → Except Fault (List UInt32)
  | .list items => ofItems items
  | .object fields => return (← fields.mapM fun f => ofText f.1).flatten
  | .text s => ofText s
  | v => do ofInt (← v.toInt)

/-- The words of the items of a list. -/
def ofItems : List Value → Except Fault (List UInt32)
  | [] => return []
  | v :: rest => do
      let words ← ofItem v
      return words ++ (← ofItems rest)

end

/-- The words of a seed; without one they are those of zero. -/
def words : Value → Except Fault (List UInt32)
  | .null => .ok [0]
  | .list items => ofItems items
  | v => do ofInt (← v.toInt)

example : numberOf? "12" = some 12 ∧ numberOf? "0x1_f " = some 31 ∧ numberOf? "0X1" = none
    ∧ numberOf? "1__2" = none ∧ numberOf? "-1" = none := by decide

end Seed
end Plexus
