import Plexus.Graph.Neuron
import Plexus.Graph.Synapse
import Plexus.Json.Reader
import Plexus.Json.Writer

/-!
# Graph documents

A graph is exchanged as an object with a version and the arrays of its neurons and
synapses.  `Document.ofBytes` and `Document.text` are its file format, one the inverse of
the other.
-/

namespace Plexus
namespace Document

/-- The version that documents carry unless another one is asked for. -/
def currentVersion : Value := .text "2.0"

/-- The document of a graph. -/
def build (neurons : List Neuron) (synapses : List Synapse) (version : Value) : Value :=
  .object [
    ("version", version),
    ("neurons", .list (neurons.map Neuron.toValue)),
    ("synapses", .list (synapses.map Synapse.toValue))]

/-- The array `key` of a document. -/
def array (fs : List (String × Value)) (key : String) : Except Fault (List Value) :=
  match Value.field? fs key with
  | some (.list items) => .ok items
  | _ => .error (.documentLacksArray key)

/-- The two arrays of a document; what is in them is not looked at. -/
def arrays (doc : Value) : Except Fault (List Value × List Value) :=
  match doc with
  | .object fs => do
      let neurons ← array fs "neurons"
      let synapses ← array fs "synapses"
      return (neurons, synapses)
  | _ => .error .documentNotObject

/-- Checks that a document has both arrays. -/
def validate (doc : Value) : Except Fault Unit := (arrays doc).map fun _ => ()

/-- The neurons and synapses of a document. -/
def parse (doc : Value) : Except Fault (List Neuron × List Synapse) := do
  let (neurons, synapses) ← arrays doc
  let neurons ← neurons.mapM Neuron.ofValue
  let synapses ← synapses.mapM Synapse.ofValue
  return (neurons, synapses)

/-- The text of a document file. -/
def text (doc : Value) : String := Json.text doc

/-- How many lists and objects of a document may lie within each other. -/
def maxDepth : Nat := 490

/--
Reads a document from the text of a file and validates it.  A text with half of a pair on
its own is not that of a file.
-/
def ofText (s : String) : Except Fault Value := do
  if Text.hasHalf s then throw .unencodableText
  let doc ← Json.read s
  validate doc
  if maxDepth < doc.depth then throw .tooDeep
  return doc

/-- Reads a document from the bytes of a file, which are UTF-8, and validates it. -/
def ofBytes (bytes : ByteArray) : Except Fault Value :=
  match String.fromUTF8? bytes with
  | none => .error .undecodableBytes
  | some s => ofText (Text.ofPlain s)

end Document
end Plexus
