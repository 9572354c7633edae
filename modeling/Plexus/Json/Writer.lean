import Plexus.Value.Basic
import Plexus.Decimal.Render
import Plexus.Text.Quoted

/-!
# Writing JSON

Values are written on indented lines, two blanks a level, in ASCII: any other character
is escaped, as a pair of halves when its code needs more than sixteen bits; a half on its
own is escaped as well.  An empty list or object stays on one line.
-/

namespace Plexus
namespace Json

/-- An escape with four hexadecimal digits. -/
def codeEscape (n : Nat) : List Char := '\\' :: 'u' :: Text.hex 4 n

/-- A character inside a string. -/
def writeChar (c : Char) : List Char :=
  if c = '"' then ['\\', '"']
  else if c = '\\' then ['\\', '\\']
  else if c = '\n' then ['\\', 'n']
  else if c = '\r' then ['\\', 'r']
  else if c = '\t' then ['\\', 't']
  else if c = '\x08' then ['\\', 'b']
  else if c = '\x0c' then ['\\', 'f']
  else if ' ' ≤ c ∧ c ≤ '~' then [c]
  else
    match Text.half? c with
    | some n => codeEscape n
    | none =>
        if c.toNat < 0x10000 then codeEscape c.toNat
        else codeEscape (Text.highHalf c.toNat) ++ codeEscape (Text.lowHalf c.toNat)

/-- A string between its marks. -/
def writeString (s : String) : List Char :=
  '"' :: (s.toList.flatMap writeChar ++ ['"'])

/-- A line break and the indentation of a level. -/
def newline (level : Nat) : List Char := '\n' :: List.replicate (2 * level) ' '

mutual

/-- A value, its parts one level deeper than `level`. -/
def write (level : Nat) : Value → List Char
  | .null => "null".toList
  | .flag true => "true".toList
  | .flag false => "false".toList
  | .int n => (toString n).toList
  | .real x => (Decimal.shortest .document x).toList
  | .nan _ => Decimal.Spelling.document.nan.toList
  | .text s => writeString s
  | .list [] => ['[', ']']
  | .list (x :: xs) =>
      '[' :: (newline (level + 1) ++ write (level + 1) x ++ writeItems (level + 1) xs ++
        newline level ++ [']'])
  | .object [] => ['\x7b', '\x7d']
  | .object ((key, v) :: fs) =>
      '\x7b' :: (newline (level + 1) ++ writeString key ++ ':' :: ' ' :: write (level + 1) v ++
        writeMembers (level + 1) fs ++ newline level ++ ['\x7d'])

/-- The items after the first one of a list. -/
def writeItems (level : Nat) : List Value → List Char
  | [] => []
  | x :: xs => ',' :: (newline level ++ write level x ++ writeItems level xs)

/-- The fields after the first one of an object. -/
def writeMembers (level : Nat) : List (String × Value) → List Char
  | [] => []
  | (key, v) :: fs =>
      ',' :: (newline level ++ writeString key ++ ':' :: ' ' :: write level v ++
        writeMembers level fs)

end

/-- The text of a value. -/
def text (v : Value) : String := String.ofList (write 0 v)

end Json
end Plexus
