import Plexus.Fault
import Plexus.Decimal.Numeral

/-!
# Numbers from values

Where a number is asked for, a document may give a whole number, a real, a truth value
or a numeral in a text.  A setting is stricter: it takes no numeral, and keeps the number
in the form in which it was given.  A number that is the length of an array may ask for more
than a memory can hold.
-/

namespace Plexus

/-- The bytes that no array can reach. -/
def Value.byteLimit : Nat := 2 ^ 63

/-- What a host has room for, as far as anything depends on it. -/
class Memory where
  /-- Whether a network of some size can be held, with buffers for some rows beside its matrix. -/
  hasRoom (size rows : Nat) : Bool
  /-- The bytes of an array that there is no room for. -/
  limit : Nat
  /-- An input can be staged where the buffers of its rows can be held. -/
  stages {size rows : Nat} :
    hasRoom size rows = true → size * rows * 4 < min Value.byteLimit limit

/-- The memory of a host that nothing is said of. -/
instance : Memory where
  hasRoom size rows := size * (size + rows) * 4 < 2 ^ 32
  limit := 2 ^ 32
  stages {size rows} h := by
    have hle : size * rows ≤ size * (size + rows) := Nat.mul_le_mul_left _ (Nat.le_add_left _ _)
    simp only [decide_eq_true_eq] at h
    simp only [Value.byteLimit]
    omega

instance : Inhabited Memory := ⟨inferInstance⟩

namespace Value

/-- The double that a value stands for. -/
def toFloat : Value → Except Fault Float
  | .real x => .ok x
  | .nan _ => .ok (0.0 / 0.0)
  | .flag b => .ok (if b then 1.0 else 0.0)
  | .int n =>
      match Decimal.nearestInt? n with
      | some x => .ok x
      | none => .error .tooLarge
  | .text s =>
      match Decimal.read? s with
      | some x => .ok x
      | none => .error .badValue
  | _ => .error .mistyped

/-- The number that a value gives. -/
def toNumber (v : Value) : Except Fault Number :=
  match v.number? with
  | some n => .ok n
  | none => .error .mistyped

/-- The whole number that a value gives; reals give none, whatever their value. -/
def toInt : Value → Except Fault Int
  | .int n => .ok n
  | .flag b => .ok (if b then 1 else 0)
  | _ => .error .mistyped

/-- The length of an array whose cells have some bytes each, whether there is room for it or not. -/
def arrayLength (cellBytes : Nat) (n : Int) : Except Fault Nat :=
  if n < 0 ∨ byteLimit ≤ n.toNat * cellBytes then .error .badValue else .ok n.toNat

/-- The length of an array that is to be held in a memory. -/
def heldLength (memory : Memory) (cellBytes : Nat) (n : Int) : Except Fault Nat := do
  let length ← arrayLength cellBytes n
  if memory.limit ≤ length * cellBytes then throw .noRoom
  return length

/-- The extent of an array; truth values give none. -/
def extent : Value → Except Fault Int
  | .int n => .ok n
  | _ => .error .mistyped

@[simp] theorem extent_int (n : Int) : extent (.int n) = .ok n := rfl

end Value

namespace Number

/-- The double nearest to a number. -/
def toFloat (n : Number) : Except Fault Float := n.toValue.toFloat

/-- A number that must be whole. -/
def toInt (n : Number) : Except Fault Int := n.toValue.toInt

/-- A number that is to be the extent of an array. -/
def extent (n : Number) : Except Fault Int := n.toValue.extent

@[simp] theorem extent_whole (n : Int) : extent (.whole n) = .ok n := rfl

/-- The number of rows that cells of single precision are to be arranged in. -/
def rows (n : Number) : Except Fault Nat := n.extent.bind (Value.arrayLength 4)

@[simp] theorem toFloat_real (x : Float) : toFloat (.real x) = .ok x := rfl

@[simp] theorem toInt_whole (n : Int) : toInt (.whole n) = .ok n := rfl

end Number
end Plexus
