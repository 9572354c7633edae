import Plexus.Fault

/-!
# Storage precisions

Parameters are stored in one of three formats: single precision, half precision, or the
upper half of single precision.
-/

namespace Plexus

/-- The formats in which parameters and deltas are stored. -/
inductive Precision where
  | fp32
  | fp16
  | bf16
deriving DecidableEq, Inhabited

namespace Precision

/-- The name of a precision. -/
def name : Precision → String
  | .fp32 => "fp32"
  | .fp16 => "fp16"
  | .bf16 => "bf16"

/-- The precision with a name. -/
def ofName? (s : String) : Option Precision :=
  [fp32, fp16, bf16].find? fun p => p.name == s

theorem ofName?_name (p : Precision) : ofName? p.name = some p := by cases p <;> decide

/-- The precision that a value names; `field` is what the value is for. -/
def ofValue (field : String) : Value → Except Fault Precision
  | .text s =>
      match ofName? s with
      | some p => .ok p
      | none => .error (.unknownPrecision field)
  | _ => .error (.unknownPrecision field)

/-- The precision that a value names; what cannot be a name is of the wrong type. -/
def named (field : String) (v : Value) : Except Fault Precision :=
  if v.isScalar then ofValue field v else .error .mistyped

end Precision
end Plexus
