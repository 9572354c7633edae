import Plexus.Value.Number

/-!
# Events
-/

namespace Plexus

/-- What an event reports. -/
inductive EventKind where
  | loss
  | epoch
deriving DecidableEq, Inhabited

namespace EventKind

/-- The name of a kind of events. -/
def name : EventKind → String
  | .loss => "loss"
  | .epoch => "epoch"

/-- The kind of events that a value names. -/
def ofValue : Value → Except Fault EventKind
  | .text s =>
      match [loss, epoch].find? fun k => k.name == s with
      | some k => .ok k
      | none => .error (.unknownEvent (.text s))
  | v => .error (.unknownEvent v)

end EventKind

/-- An event, with the number that it reports. -/
structure Event where
  kind : EventKind
  value : Float
deriving Inhabited

/-- The event of a kind and a number that are given as values. -/
def Event.ofValues (kind value : Value) : Except Fault Event := do
  let kind ← EventKind.ofValue kind
  let value ← value.toFloat
  return { kind, value }

end Plexus
