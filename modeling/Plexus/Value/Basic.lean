import Plexus.Decimal.Number

/-!
# Document values

Graph documents, identifiers and operands arrive as loosely typed values: the values of
a JSON document, where whole numbers and reals are told apart and whole numbers have
any size.  There are two equalities.  `Value.equal` compares values as numbers, texts,
lists and objects.  `Value.same` is the equality of keys: it agrees with `equal`, except
that an occurrence of what is not a number is the same key as itself.
-/

namespace Plexus

/-- A value of a document. -/
inductive Value where
  | null
  | flag (b : Bool)
  | int (n : Int)
  | real (x : Float)
  /-- What is not a number, with a mark that tells one occurrence of it from another. -/
  | nan (mark : Nat)
  | text (s : String)
  | list (items : List Value)
  | object (fields : List (String × Value))
deriving Inhabited

namespace Value

/-- The number that a value stands for in comparisons; truth values count as 1 and 0. -/
def number? : Value → Option Number
  | .flag b => some (.flag b)
  | .int n => some (.whole n)
  | .real x => some (.real x)
  | .nan _ => some (.real (0.0 / 0.0))
  | _ => none

/-- Whether a value is a number of the same value as `n`. -/
def sameNumber (n : Number) (v : Value) : Bool := (v.number?.map n.same).getD false

mutual

/--
Equality of keys.  Numbers are equal when their values are, whatever their form; objects
are equal when they have the same fields in any order; what is not a number is equal to
itself only where it is the same occurrence.
-/
def same : Value → Value → Bool
  | .null, .null => true
  | .text s, .text t => s == t
  | .list xs, .list ys => sameItems xs ys
  | .object fs, .object gs => fs.length == gs.length && sameFields fs gs
  | .nan i, .nan j => i == j
  | .flag b, w => sameNumber (.flag b) w
  | .int n, w => sameNumber (.whole n) w
  | .real x, w => sameNumber (.real x) w
  | _, _ => false

/-- Equality of lists, item by item. -/
def sameItems : List Value → List Value → Bool
  | [], [] => true
  | x :: xs, y :: ys => same x y && sameItems xs ys
  | _, _ => false

/-- Whether each field of the first list has an equal field in the second. -/
def sameFields : List (String × Value) → List (String × Value) → Bool
  | [], _ => true
  | (key, v) :: rest, gs =>
      (match gs.lookup key with
        | some w => same v w
        | none => false) && sameFields rest gs

end

/--
Equality of values: what is not a number differs even from itself.  Inside lists and
objects it is compared as a key is.
-/
def equal : Value → Value → Bool
  | .nan _, _ => false
  | v, w => same v w

/-- Whether a value can name something: lists and objects cannot. -/
def isScalar : Value → Bool
  | .list _ => false
  | .object _ => false
  | _ => true

mutual

/-- How many lists and objects lie within each other. -/
def depth : Value → Nat
  | .list xs => depthOfItems xs + 1
  | .object fs => depthOfFields fs + 1
  | _ => 0

/-- The greatest depth of the items of a list. -/
def depthOfItems : List Value → Nat
  | [] => 0
  | x :: xs => max (depth x) (depthOfItems xs)

/-- The greatest depth of the fields of an object. -/
def depthOfFields : List (String × Value) → Nat
  | [] => 0
  | (_, v) :: rest => max (depth v) (depthOfFields rest)

end

/-- Whether a value counts as true. -/
def truth : Value → Bool
  | .null => false
  | .flag b => b
  | .int n => n != 0
  | .real x => x != 0.0
  | .nan _ => true
  | .text s => s != ""
  | .list xs => !xs.isEmpty
  | .object fs => !fs.isEmpty

/-- The field `key` of an object's field list. -/
def field? (fields : List (String × Value)) (key : String) : Option Value :=
  fields.lookup key

/-- Sets a field; a field that is already there keeps its place. -/
def setField (fields : List (String × Value)) (key : String) (v : Value) :
    List (String × Value) :=
  match fields with
  | [] => [(key, v)]
  | (k, w) :: rest => if k == key then (k, v) :: rest else (k, w) :: setField rest key v

@[simp] theorem same_text_text (s t : String) : same (.text s) (.text t) = (s == t) := by
  simp [same]

@[simp] theorem equal_text (s : String) (v : Value) : equal (.text s) v = same (.text s) v := rfl

end Value
end Plexus
