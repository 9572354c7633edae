import Plexus.Value.Number

/-!
# Activation functions

A neuron names its activation function by a tag; a compiled network stores it as a small
code per slot.  The tags and codes are listed here; what the functions compute belongs to
the number type that the network runs on.
-/

namespace Plexus

/-- The activation functions. -/
inductive Activation where
  | tanh
  | relu
  | sigmoid
  | linear
deriving DecidableEq, Inhabited

namespace Activation

/-- All activation functions, in the order of their codes. -/
def all : List Activation := [.tanh, .relu, .sigmoid, .linear]

/-- The tag of an activation function. -/
def tag : Activation → String
  | .tanh => "tanh"
  | .relu => "relu"
  | .sigmoid => "sigmoid"
  | .linear => "linear"

/-- The code of an activation function. -/
def code : Activation → Nat
  | .tanh => 0
  | .relu => 1
  | .sigmoid => 2
  | .linear => 3

/-- The activation function with a tag. -/
def ofTag? (s : String) : Option Activation := all.find? fun a => a.tag == s

theorem mem_all (a : Activation) : a ∈ all := by cases a <;> decide

theorem ofTag?_tag (a : Activation) : ofTag? a.tag = some a := by cases a <;> decide

theorem code_injective {a b : Activation} (h : a.code = b.code) : a = b := by
  cases a <;> cases b <;> simp_all [code]

/-- The activation function that a value names. -/
def ofValue : Value → Except Fault Activation
  | .text s =>
      match ofTag? s with
      | some a => .ok a
      | none => .error (.unknownActivation (.text s))
  | .list _ => .error .mistyped
  | .object _ => .error .mistyped
  | v => .error (.unknownActivation v)

/-- The bytes of a code. -/
def codeBytes : Nat := 8

/--
The activation function of each of `size` slots.  Without tags every slot has the
default, which is `tanh`.
-/
def ofTags [memory : Memory] (tags : Option (List Value)) (size : Value) :
    Except Fault (List Activation) :=
  match tags with
  | none => do
      let n ← Value.heldLength memory codeBytes (← size.extent)
      return List.replicate n .tanh
  | some tags => do
      if !(Value.int tags.length).equal size then throw (.activationCount size tags.length)
      let _ ← size.extent
      tags.mapM ofValue

/-- The tags that a value gives: one per item of a list, or one per character of a text. -/
def tagsOfValue : Value → Except Fault (Option (List Value))
  | .null => .ok none
  | .list tags => .ok (some tags)
  | .text s => .ok (some (s.toList.map fun c => .text (String.singleton c)))
  | .object fields => .ok (some (fields.map fun f => .text f.1))
  | _ => .error .mistyped

end Activation
end Plexus
