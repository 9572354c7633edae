import Plexus.Value.Number
import Plexus.Value.Record

/-!
# Engine settings

Only the choice of a backend and the learning rate are checked when settings are made.  The
device and the seeding of empty stores are kept as they were given until they are used.
-/

namespace Plexus

/-- Which backend an engine asks for. -/
inductive BackendChoice where
  | auto
  | dense
  | graph
deriving DecidableEq, Inhabited

namespace BackendChoice

/-- The name of a choice. -/
def name : BackendChoice → String
  | .auto => "auto"
  | .dense => "dense"
  | .graph => "graph"

/-- The choice that a value names. -/
def ofValue : Value → Except Fault BackendChoice
  | .text s =>
      match [auto, dense, graph].find? fun c => c.name == s with
      | some c => .ok c
      | none => .error .unknownBackend
  | _ => .error .unknownBackend

end BackendChoice

/-- How an engine is set up. -/
structure EngineSettings where
  backend : BackendChoice
  /-- The device to run on, as it was given; it is found out if this is null. -/
  device : Value
  learningRate : Number
  /-- Whether an empty store is seeded with a network of two neurons, as it was given. -/
  seedDefaultNetwork : Value
  /-- The version that exported documents carry. -/
  version : Value

namespace EngineSettings

/-- Any backend on any device. -/
def default : EngineSettings := ⟨.auto, .null, .real 0.01, .flag true, .text "2.0"⟩

instance : Inhabited EngineSettings := ⟨default⟩

/-- Settings that always select the backend that can train. -/
def trainable : EngineSettings := { default with backend := .dense }

/-- Settings that always select the backend that only runs forward. -/
def inference : EngineSettings := { default with backend := .graph }

/-- A learning rate, which is positive; what is not a number passes. -/
def rate (v : Value) : Except Fault Number := do
  let n ← v.toNumber
  if n.atMost (.whole 0) then throw (.notPositive "learning_rate") else return n

/-- The names of the settings. -/
def names : List String := ["backend", "device", "learning_rate", "seed_default_network", "version"]

/-- Reads settings from named values; the others keep their defaults. -/
def ofFields (fs : List (String × Value)) : Except Fault EngineSettings := do
  Value.strict names [] fs
  let backend ← BackendChoice.ofValue (Value.optional fs "backend" (.text "auto"))
  let learningRate ← rate (Value.optional fs "learning_rate" (.real 0.01))
  return {
    backend
    device := Value.optional fs "device" .null
    learningRate
    seedDefaultNetwork := Value.optional fs "seed_default_network" (.flag true)
    version := Value.optional fs "version" (.text "2.0") }

/-- The settings as named values. -/
def toValue (s : EngineSettings) : Except Fault Value := do
  let rate ← s.learningRate.toFloat
  return .object [
    ("backend", .text s.backend.name),
    ("device", s.device),
    ("learning_rate", .real rate),
    ("seed_default_network", s.seedDefaultNetwork),
    ("version", s.version)]

end EngineSettings

/-- The settings that engines use which are given none: unset until they are first asked for. -/
abbrev DefaultSettings := Option EngineSettings

namespace DefaultSettings

/-- The default settings, which are fixed from now on. -/
def get (d : DefaultSettings) : EngineSettings × DefaultSettings :=
  match d with
  | some s => (s, some s)
  | none => (.default, some .default)

theorem get_get (d : DefaultSettings) : (get (get d).2).1 = (get d).1 := by
  cases d <;> rfl

end DefaultSettings
end Plexus
