import Plexus.Value.Basic
import Plexus.Decimal.Render
import Plexus.Text.Quoted

/-!
# Values in messages

`Value.quoted` shows a value so that its form can be told: texts stand between quotation
marks.  `Value.display` shows a text as it is and any other value quoted.
-/

namespace Plexus
namespace Value

/-- Joins texts with a comma and a blank. -/
def commaSeparated (items : List String) : String := ", ".intercalate items

mutual

/-- A value as a message quotes it. -/
def quoted : Value → String
  | .null => "None"
  | .flag true => "True"
  | .flag false => "False"
  | .int n => toString n
  | .real x => Decimal.shortest .plain x
  | .nan _ => Decimal.Spelling.plain.nan
  | .text s => Text.quoted s
  | .list xs => "[" ++ commaSeparated (quotedItems xs) ++ "]"
  | .object fs => "\x7b" ++ commaSeparated (quotedFields fs) ++ "\x7d"

/-- The items of a list as a message quotes them. -/
def quotedItems : List Value → List String
  | [] => []
  | x :: xs => quoted x :: quotedItems xs

/-- The fields of an object as a message quotes them. -/
def quotedFields : List (String × Value) → List String
  | [] => []
  | (key, v) :: rest => (Text.quoted key ++ ": " ++ quoted v) :: quotedFields rest

end

/-- A value as part of a sentence. -/
def display : Value → String
  | .text s => s
  | v => v.quoted

@[simp] theorem display_text (s : String) : display (.text s) = s := rfl

end Value

namespace Number

/-- A number as a value. -/
def toValue : Number → Value
  | .flag b => .flag b
  | .whole n => .int n
  | .real x => .real x

/-- A number in messages. -/
def display (n : Number) : String := n.toValue.display

end Number
end Plexus
