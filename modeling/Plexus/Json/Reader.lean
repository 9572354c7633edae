import Plexus.Fault
import Plexus.Decimal.Numeral
import Plexus.Text.Half

/-!
# Reading JSON

The texts read here are those of the JSON grammar, with three words added for numbers
that have no numeral: `NaN`, `Infinity` and `-Infinity`.  A whole number without point
and exponent keeps its exact value; of several fields with one name the last counts, in
the place of the first.  A string may hold a half of a pair on its own.  Readers return the
value and the rest of the text.  They go no deeper than `Json.maxDepth` lists and objects,
and say so when they meet the first one beyond it.
-/

namespace Plexus
namespace Json

/-- White space between tokens. -/
def isSpace (c : Char) : Bool := c == ' ' || c == '\t' || c == '\n' || c == '\r'

/-- The text from its first token on. -/
def skipSpace (cs : List Char) : List Char := cs.dropWhile isSpace

/-- The value of a hexadecimal digit. -/
def hexValue? (c : Char) : Option Nat :=
  if '0' ≤ c ∧ c ≤ '9' then some (c.toNat - 48)
  else if 'a' ≤ c ∧ c ≤ 'f' then some (c.toNat - 87)
  else if 'A' ≤ c ∧ c ≤ 'F' then some (c.toNat - 55)
  else none

/-- The value of four hexadecimal digits. -/
def hexQuad? (a b c d : Char) : Option Nat := do
  let a ← hexValue? a
  let b ← hexValue? b
  let c ← hexValue? c
  let d ← hexValue? d
  return ((a * 16 + b) * 16 + c) * 16 + d

/-- The character that a one-letter escape stands for. -/
def shortEscape? : Char → Option Char
  | '"' => some '"'
  | '\\' => some '\\'
  | '/' => some '/'
  | 'b' => some '\x08'
  | 'f' => some '\x0c'
  | 'n' => some '\n'
  | 'r' => some '\r'
  | 't' => some '\t'
  | _ => none

/-- Puts characters in front of a string that has been read. -/
def andThen (cs : List Char) (r : Option (List Char × List Char)) :
    Option (List Char × List Char) :=
  r.map fun (more, rest) => (cs ++ more, rest)

/-- The characters of a string after its opening mark, up to its closing mark. -/
def stringBody : List Char → Option (List Char × List Char)
  | [] => none
  | '"' :: rest => some ([], rest)
  | '\\' :: 'u' :: a :: b :: c :: d :: '\\' :: 'u' :: e :: f :: g :: h :: rest =>
      match hexQuad? a b c d, hexQuad? e f g h with
      | some m, some n =>
          if Text.isHighHalf m && Text.isLowHalf n then
            andThen (Text.ofCode (Text.joinHalves m n)) (stringBody rest)
          else andThen (Text.ofCode m) (stringBody ('\\' :: 'u' :: e :: f :: g :: h :: rest))
      | _, _ => none
  | '\\' :: 'u' :: a :: b :: c :: d :: rest =>
      match hexQuad? a b c d with
      | some n => andThen (Text.ofCode n) (stringBody rest)
      | none => none
  | '\\' :: c :: rest =>
      match shortEscape? c with
      | some e => andThen [e] (stringBody rest)
      | none => none
  | c :: rest => if c < ' ' then none else andThen [c] (stringBody rest)

/-- The digits after a point, with what follows; nothing if no digit follows the point. -/
def fractionDigits : List Char → List Char × List Char
  | '.' :: rest =>
      let digits := rest.takeWhile Decimal.isDigit
      if digits.isEmpty then ([], '.' :: rest) else (digits, rest.dropWhile Decimal.isDigit)
  | cs => ([], cs)

/-- An exponent, with what follows; nothing if no digit follows the mark. -/
def exponentDigits : List Char → Option Int × List Char
  | [] => (none, [])
  | c :: rest =>
      let (negative, body) := Decimal.splitSign rest
      let digits := body.takeWhile Decimal.isDigit
      if (c = 'e' ∨ c = 'E') ∧ !digits.isEmpty then
        let n : Int := Decimal.natOfDigits digits
        (some (if negative then -n else n), body.dropWhile Decimal.isDigit)
      else (none, c :: rest)

/-- What was read, or that the text is malformed. -/
def expect {β : Type} : Option β → Except Fault β
  | some x => .ok x
  | none => .error .malformedDocument

/-- The most digits of a whole number. -/
def maxDigits : Nat := 4300

/-- A numeral without its sign.  A zero in front stands alone. -/
def unsignedNumber (negative : Bool) (cs : List Char) : Except Fault (Value × List Char) :=
  let run := cs.takeWhile Decimal.isDigit
  let whole := if run.head? = some '0' then ['0'] else run
  if whole.isEmpty then .error .malformedDocument
  else
    let (part, afterPart) := fractionDigits (cs.drop whole.length)
    let (exponent, rest) := exponentDigits afterPart
    if part.isEmpty ∧ exponent.isNone then
      if maxDigits < whole.length then .error .badValue
      else
        let n : Int := Decimal.natOfDigits whole
        .ok (.int (if negative then -n else n), rest)
    else
      let e := exponent.getD 0 - (part.length : Int)
      .ok (.real (Decimal.ofDecimal negative (Decimal.natOfDigits (whole ++ part)) e), rest)

/-- What follows `word` at the front of a text. -/
def afterWord (word : List Char) (cs : List Char) : Option (List Char) :=
  if word.isPrefixOf cs then some (cs.drop word.length) else none

/-- The words of the language and what they stand for. -/
def words : List (List Char × Value) := [
  ("null".toList, .null),
  ("true".toList, .flag true),
  ("false".toList, .flag false),
  ("NaN".toList, .real (0.0 / 0.0)),
  ("Infinity".toList, .real (1.0 / 0.0)),
  ("-Infinity".toList, .real (-1.0 / 0.0))]

/-- A value that has no parts: a word or a number. -/
def atom (cs : List Char) : Except Fault (Value × List Char) :=
  match words.findSome? fun (word, v) => (afterWord word cs).map fun rest => (v, rest) with
  | some r => .ok r
  | none =>
      match cs with
      | '-' :: rest => unsignedNumber true rest
      | cs => unsignedNumber false cs

/-- How many lists and objects may lie within each other. -/
def maxDepth : Nat := 990

/-- What is read one level deeper; the fault that there is no such level comes first. -/
def deeper {β : Type} (room : Nat) (read : Nat → Except Fault β) : Except Fault β :=
  match room with
  | 0 => .error .tooDeep
  | room + 1 => read room

mutual

/--
A value at the front of a text.  The fuel bounds how many steps of the grammar are taken,
the room how many lists and objects may lie within each other.
-/
def value : Nat → Nat → List Char → Except Fault (Value × List Char)
  | 0, _, _ => .error .malformedDocument
  | fuel + 1, room, cs =>
      match cs with
      | '"' :: rest =>
          (expect (stringBody rest)).map fun (s, rest) => (.text (String.ofList s), rest)
      | '[' :: rest =>
          deeper room fun room =>
            match skipSpace rest with
            | ']' :: rest => .ok (.list [], rest)
            | rest => (items fuel room rest).map fun (xs, rest) => (.list xs, rest)
      | '\x7b' :: rest =>
          deeper room fun room =>
            match skipSpace rest with
            | '\x7d' :: rest => .ok (.object [], rest)
            | rest =>
                (members fuel room rest).map fun (fs, rest) =>
                  (.object (fs.foldl (fun acc (key, v) => Value.setField acc key v) []), rest)
      | cs => atom cs

/-- The items of a list, up to the closing bracket. -/
def items : Nat → Nat → List Char → Except Fault (List Value × List Char)
  | 0, _, _ => .error .malformedDocument
  | fuel + 1, room, cs => do
      let (v, rest) ← value fuel room (skipSpace cs)
      match skipSpace rest with
      | ']' :: rest => return ([v], rest)
      | ',' :: rest => (items fuel room rest).map fun (vs, rest) => (v :: vs, rest)
      | _ => throw .malformedDocument

/-- The fields of an object, up to the closing brace. -/
def members : Nat → Nat → List Char → Except Fault (List (String × Value) × List Char)
  | 0, _, _ => .error .malformedDocument
  | fuel + 1, room, cs =>
      match skipSpace cs with
      | '"' :: rest => do
          let (key, rest) ← expect (stringBody rest)
          match skipSpace rest with
          | ':' :: rest =>
              let (v, rest) ← value fuel room (skipSpace rest)
              match skipSpace rest with
              | '\x7d' :: rest => return ([(String.ofList key, v)], rest)
              | ',' :: rest =>
                  (members fuel room rest).map fun (fs, rest) =>
                    ((String.ofList key, v) :: fs, rest)
              | _ => throw .malformedDocument
          | _ => throw .malformedDocument
      | _ => .error .malformedDocument

end

/-- The value of a whole text. -/
def read (s : String) : Except Fault Value := do
  let cs := s.toList
  let (v, rest) ← value (2 * cs.length + 2) maxDepth (skipSpace cs)
  if (skipSpace rest).isEmpty then return v else throw .malformedDocument

end Json
end Plexus
