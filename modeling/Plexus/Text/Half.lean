/-!
# Halves of pairs

The code of a character beyond the first 65536 can be split into a pair of halves, a high
one and a low one.  A half on its own is no character, yet a text may hold one.  It stands
as a character of a private block, and a character of that block stands as its two halves,
so nothing is confused: `Text.ofPlain` takes a text of plain characters over, and
`Text.codes` tells which codes a text stands for.
-/

namespace Plexus
namespace Text

/-- The codes of high halves. -/
def isHighHalf (n : Nat) : Bool := 0xd800 ≤ n && n < 0xdc00

/-- The codes of low halves. -/
def isLowHalf (n : Nat) : Bool := 0xdc00 ≤ n && n < 0xe000

/-- The codes of halves. -/
def isHalf (n : Nat) : Bool := isHighHalf n || isLowHalf n

/-- The code that a pair of halves stands for. -/
def joinHalves (high low : Nat) : Nat := 0x10000 + (high - 0xd800) * 0x400 + (low - 0xdc00)

/-- The high half of a code. -/
def highHalf (n : Nat) : Nat := 0xd800 + (n - 0x10000) / 0x400

/-- The low half of a code. -/
def lowHalf (n : Nat) : Nat := 0xdc00 + (n - 0x10000) % 0x400

/-- What a half's code is moved by. -/
def halfOffset : Nat := 0x100000

/-- The character that a half stands as. -/
def half (n : Nat) : Char := Char.ofNat (halfOffset + n)

/-- The half that a character stands for. -/
def half? (c : Char) : Option Nat :=
  let n := c.toNat - halfOffset
  if isHalf n then some n else none

/-- A code as it stands in a text. -/
def ofCode (n : Nat) : List Char :=
  if isHalf n then [half n]
  else
    let c := Char.ofNat n
    if (half? c).isSome then [half (highHalf n), half (lowHalf n)] else [c]

/-- A text of plain characters as it stands. -/
def ofPlain (s : String) : String := String.ofList (s.toList.flatMap fun c => ofCode c.toNat)

/-- The code of a character on its own. -/
def codeOf (c : Char) : Nat := (half? c).getD c.toNat

/-- The codes that a text stands for. -/
def codes : List Char → List Nat
  | [] => []
  | [c] => [codeOf c]
  | c :: d :: rest =>
      if isHighHalf (codeOf c) && isLowHalf (codeOf d) then
        joinHalves (codeOf c) (codeOf d) :: codes rest
      else codeOf c :: codes (d :: rest)

/-- Whether a text holds a half on its own. -/
def hasHalf (s : String) : Bool := (codes s.toList).any isHalf

theorem joinHalves_split {n : Nat} (h : 0x10000 ≤ n) :
    joinHalves (highHalf n) (lowHalf n) = n := by
  unfold joinHalves highHalf lowHalf
  omega

theorem isHighHalf_highHalf {n : Nat} (h : n < 0x110000) : isHighHalf (highHalf n) = true := by
  unfold isHighHalf highHalf
  rw [Bool.and_eq_true, decide_eq_true_iff, decide_eq_true_iff]
  omega

theorem isLowHalf_lowHalf (n : Nat) : isLowHalf (lowHalf n) = true := by
  unfold isLowHalf lowHalf
  rw [Bool.and_eq_true, decide_eq_true_iff, decide_eq_true_iff]
  omega

example : half? (half 0xd83d) = some 0xd83d ∧ half? 'x' = none := by decide

example : codes (ofCode 0x10d83d) = [0x10d83d] ∧ codes (ofCode 0xd83d) = [0xd83d] := by
  decide +kernel

end Text
end Plexus
