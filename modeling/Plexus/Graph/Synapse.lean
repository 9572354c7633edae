import Plexus.Value.Number
import Plexus.Value.Record

/-!
# Synapses

A synapse names its two neurons by their identifiers, whether or not they exist.
-/

namespace Plexus

/-- A directed, weighted connection from the neuron `source` to the neuron `target`. -/
structure Synapse where
  id : Value
  source : Value
  target : Value
  weight : Float
deriving Inhabited

namespace Synapse

/-- A synapse from loosely typed parts. -/
def make (id source target weight : Value) : Except Fault Synapse := do
  let weight ← weight.toFloat
  return { id, source, target, weight }

/-- The weight of a synapse whose record gives none. -/
def defaultWeight : Value := .real 0.0

/-- Reads a document record.  Older documents write `source_id` and `target_id` for the ends. -/
def ofValue (v : Value) : Except Fault Synapse := do
  let fs ← v.fields
  let id ← Value.required fs "id"
  let source ← Value.eitherRequired fs "from_id" "source_id"
  let target ← Value.eitherRequired fs "to_id" "target_id"
  make id source target (Value.optional fs "weight" defaultWeight)

/-- Reads a record of named parts, which may hold nothing else. -/
def ofParts (v : Value) : Except Fault Synapse := do
  let fs ← v.fields
  Value.strict ["id", "source_id", "target_id", "weight"] ["id", "source_id", "target_id"] fs
  make (Value.optional fs "id" .null) (Value.optional fs "source_id" .null)
    (Value.optional fs "target_id" .null) (Value.optional fs "weight" defaultWeight)

/-- The document record of a synapse. -/
def toValue (s : Synapse) : Value :=
  .object [
    ("id", s.id),
    ("from_id", s.source),
    ("to_id", s.target),
    ("weight", .real s.weight)]

/-- Whether a synapse leads back to the neuron it starts from. -/
def isSelfLoop (s : Synapse) : Bool := s.source.equal s.target

/-- Equality field by field; a weight that is not a number differs from itself. -/
def same (a b : Synapse) : Bool :=
  a.id.same b.id && a.source.same b.source && a.target.same b.target && a.weight == b.weight

end Synapse
end Plexus
