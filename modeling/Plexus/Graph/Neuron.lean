import Plexus.Graph.Activation
import Plexus.Graph.Kind
import Plexus.Value.Number
import Plexus.Value.Record

/-!
# Neurons

A neuron is known by its identifier alone; its place in any compiled network is found
when the network is compiled.
-/

namespace Plexus

/--
A computational unit.  A neuron that was read from a document has a known activation tag;
one that was edited in place may carry any value there, and compilation then refuses it.
-/
structure Neuron where
  id : Value
  kind : Kind
  bias : Float
  activation : Value
deriving Inhabited

namespace Neuron

/-- A neuron from loosely typed parts, checked in the order kind, bias, activation. -/
def make (id kind bias activation : Value) : Except Fault Neuron := do
  let kind ← Kind.ofValue kind
  let bias ← bias.toFloat
  match activation with
  | .text tag =>
      if (Activation.ofTag? tag).isSome then return { id, kind, bias, activation }
      else throw (.unknownActivation activation)
  | _ => throw (.unknownActivation activation)

/-- The default of each part that a record may leave out. -/
def defaultKind : Value := .text "hidden"

/-- The bias of a neuron whose record gives none. -/
def defaultBias : Value := .real 0.0

/-- The activation of a neuron whose record gives none. -/
def defaultActivation : Value := .text "tanh"

/-- Reads a document record.  The kind may be given as `type` or, in older documents, as `kind`. -/
def ofValue (v : Value) : Except Fault Neuron := do
  let fs ← v.fields
  let id ← Value.required fs "id"
  make id (Value.optional fs "type" (Value.optional fs "kind" defaultKind))
    (Value.optional fs "bias" defaultBias) (Value.optional fs "activation" defaultActivation)

/-- Reads a record of named parts, which may hold nothing else. -/
def ofParts (v : Value) : Except Fault Neuron := do
  let fs ← v.fields
  Value.strict ["id", "kind", "bias", "activation"] ["id"] fs
  make (Value.optional fs "id" .null) (Value.optional fs "kind" defaultKind)
    (Value.optional fs "bias" defaultBias) (Value.optional fs "activation" defaultActivation)

/-- The document record of a neuron. -/
def toValue (n : Neuron) : Value :=
  .object [
    ("id", n.id),
    ("type", .text n.kind.tag),
    ("bias", .real n.bias),
    ("activation", n.activation)]

/-- Equality field by field; a bias that is not a number differs from itself. -/
def same (a b : Neuron) : Bool :=
  a.id.same b.id && a.kind == b.kind && a.bias == b.bias && a.activation.same b.activation

end Neuron
end Plexus
