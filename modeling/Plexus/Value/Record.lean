import Plexus.Fault

/-!
# Records

Reading the fields of an object: required ones, optional ones with a default, and strict
records that allow no other fields than the listed ones.
-/

namespace Plexus
namespace Value

/-- The fields of an object. -/
def fields : Value → Except Fault (List (String × Value))
  | .object fs => .ok fs
  | _ => .error .mistyped

/-- The field `key`, which must be there. -/
def required (fs : List (String × Value)) (key : String) : Except Fault Value :=
  match field? fs key with
  | some v => .ok v
  | none => .error (.missingKey (.text key))

/-- The field `key`, or else the field `other`, which must be there then. -/
def eitherRequired (fs : List (String × Value)) (key other : String) : Except Fault Value :=
  match field? fs key with
  | some v => .ok v
  | none => required fs other

/-- The field `key`, or a default. -/
def optional (fs : List (String × Value)) (key : String) (default : Value) : Value :=
  (field? fs key).getD default

/-- Refuses a record with a field outside of `allowed` or without one of `needed`. -/
def strict (allowed needed : List String) (fs : List (String × Value)) : Except Fault Unit :=
  if (fs.all fun f => allowed.contains f.1) && needed.all fun key => (field? fs key).isSome then
    .ok ()
  else .error .mistyped

end Value
end Plexus
