import Plexus.Engine.Lifecycle
import Plexus.Graph.Document

/-!
# Writing trained parameters back

Training changes the parameters in the backend.  Before the graph is changed or exported
they are written back to the stores: the bias of every neuron and the weight of every
synapse whose ends are both neurons, as far as they differ from what is stored.
-/

namespace Plexus
namespace Engine

variable {α : Type} [Scalar α]

/-- Writes the bias of a neuron back. -/
def syncNeuron (c : Compiled α) (biases : Array α) (n : Neuron) : Attempt (Engine α) Unit := do
  let i ← Attempt.of (c.indexOf n.id)
  let bias := Scalar.toFloat (Scalar.cell biases i)
  if bias != n.bias then
    let n ← Attempt.of (Neuron.make n.id (.text n.kind.tag) (.real bias) n.activation)
    onNeurons (Store.update n)
    modify fun e => { e with written := e.written ++ [n.id] }

/-- Writes the weight of a synapse back. -/
def syncSynapse (c : Compiled α) (weights : Array α) (s : Synapse) : Attempt (Engine α) Unit := do
  if !(s.source.isScalar && s.target.isScalar) then throw .mistyped
  match Compiled.cellOf? c.index c.size s with
  | none => return
  | some i =>
      let weight := Scalar.toFloat (Scalar.cell weights i)
      if weight != s.weight then onSynapses (Store.update { s with weight })

/-- Writes all trained parameters back. -/
def syncWeights : Attempt (Engine α) Unit := do
  let e ← get
  match e.compiled with
  | none => throw .nothingCompiled
  | some c =>
      if e.backend.isNone then throw .nothingCompiled
      let (weights, biases) ← onBackend Backend.readParameters
      e.neurons.forM (syncNeuron c biases)
      e.synapses.forM (syncSynapse c weights)
      refresh
      modify fun e => { e with trained := false }

/-- Writes trained parameters back if there are any. -/
def syncIfTrained : Attempt (Engine α) Unit := do
  if (← get).trained then syncWeights

/-- The document of the graph, with its trained parameters. -/
def exportGraph : Attempt (Engine α) Value := do
  syncIfTrained
  let e ← get
  return Document.build e.neurons e.synapses e.settings.version

end Engine
end Plexus
