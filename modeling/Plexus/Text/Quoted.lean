import Plexus.Text.Half
import Plexus.Text.Printable

/-!
# Quoted texts

How a message shows a text: between quotation marks, with a backslash before what
would end or garble it.  Single marks are used, unless the text holds a single mark
and no double one.
-/

namespace Plexus
namespace Text

/-- The hexadecimal digits of `n`, in lower case, with zeros in front up to `width`. -/
def hex (width n : Nat) : List Char :=
  let digits := Nat.toDigits 16 n
  List.replicate (width - digits.length) '0' ++ digits

/-- A code inside quotation marks `mark`. -/
def quoteCode (mark : Char) (n : Nat) : List Char :=
  let c := Char.ofNat n
  if c = mark ∨ c = '\\' then ['\\', c]
  else if c = '\n' then ['\\', 'n']
  else if c = '\r' then ['\\', 'r']
  else if c = '\t' then ['\\', 't']
  else if isPrintable c then [c]
  else if n < 0x100 then '\\' :: 'x' :: hex 2 n
  else if n < 0x10000 then '\\' :: 'u' :: hex 4 n
  else '\\' :: 'U' :: hex 8 n

/-- The quotation mark for a text. -/
def quoteMark (cs : List Char) : Char :=
  if cs.contains '\'' && !cs.contains '"' then '"' else '\''

/-- A text between quotation marks. -/
def quoted (s : String) : String :=
  let cs := s.toList
  let mark := quoteMark cs
  String.ofList (mark :: ((codes cs).flatMap (quoteCode mark) ++ [mark]))

end Text
end Plexus
