import Plexus.Engine.Sync

/-!
# Changing the graph of an engine

Every change writes trained parameters back first, then changes the stores, then reads
the cache anew and compiles.  Each answers with the projection of the graph it leaves.
-/

namespace Plexus
namespace Engine

variable {α : Type} [Scalar α]

/-- Adds a neuron. -/
def addNeuron (n : Neuron) : Attempt (Engine α) Projection := do
  syncIfTrained
  onNeurons (Store.create n)
  refreshAndCompile

/-- Adds a synapse. -/
def addSynapse (s : Synapse) : Attempt (Engine α) Projection := do
  syncIfTrained
  onSynapses (Store.create s)
  refreshAndCompile

/-- Whether a synapse starts or ends at a neuron. -/
def touches (id : Value) (s : Synapse) : Bool := s.source.same id || s.target.same id

/-- Deletes a neuron and the cached synapses that start or end at it. -/
def deleteNeuron (id : Value) : Attempt (Engine α) Projection := do
  syncIfTrained
  ((← get).synapses.filter (touches id)).forM fun s => onSynapses (Store.delete s.id)
  onNeurons (Store.delete id)
  refreshAndCompile

/-- Deletes a synapse. -/
def deleteSynapse (id : Value) : Attempt (Engine α) Projection := do
  syncIfTrained
  onSynapses (Store.delete id)
  refreshAndCompile

/-- The first cached synapse with an identifier. -/
def findSynapse (id : Value) : Attempt (Engine α) Synapse := do
  match (← get).synapses.find? fun s => s.id.equal id with
  | some s => return s
  | none => throw (.unknownSynapse id)

/-- Gives a synapse another weight. -/
def updateSynapseWeight (id weight : Value) : Attempt (Engine α) Projection := do
  syncIfTrained
  let s ← findSynapse id
  let s ← Attempt.of (Synapse.make s.id s.source s.target weight)
  onSynapses (Store.update s)
  refreshAndCompile

/-- Replaces what the stores hold. -/
def replaceStored (neurons : List Neuron) (synapses : List Synapse) : Attempt (Engine α) Unit := do
  onSynapses Store.clear
  onNeurons Store.clear
  neurons.forM fun n => onNeurons (Store.create n)
  synapses.forM fun s => onSynapses (Store.create s)

/--
Replaces the graph with that of a document.  If an entity is refused, the entities before
it stay stored, and the cache and the compiled graph follow the stores.
-/
def importGraph (doc : Value) : Attempt (Engine α) Projection := do
  let (neurons, synapses) ← Attempt.of (Document.parse doc)
  Attempt.onFault (replaceStored neurons synapses) do
    let _ ← refreshAndCompile
  refreshAndCompile

/-- The engine with other training settings, which its backend takes over too. -/
def retrained (training : TrainingSettings) (e : Engine α) : Engine α :=
  updateBackend (Backend.configure training) { e with training }

/-- Takes over training settings, and compiles again what was compiled under others. -/
def retrain (training : TrainingSettings) : Attempt (Engine α) Unit := do
  modify (retrained training)
  if (← get).compiled.isSome then
    let _ ← compile

/-- Takes over new training settings. -/
def setTraining (training : TrainingSettings) : Attempt (Engine α) Unit := do
  syncIfTrained
  retrain training

/--
Gives a cached neuron an activation tag in place, whether the tag is known or not; negative
places count from the end.  In stores that hand out their own entries the stored neuron
changes too, unless it was replaced since the cache was read.
-/
def retag (place : Int) (tag : Value) : Attempt (Engine α) Unit := do
  let e ← get
  let i := if place < 0 then place + e.neurons.length else place
  if i < 0 ∨ (e.neurons.length : Int) ≤ i then throw .outOfRange
  let edit (n : Neuron) : Neuron := { n with activation := tag }
  set { e with
    neurons := e.neurons.modify i.toNat edit
    neuronStore := e.neuronStore.editListed (e.neurons.map Neuron.id) e.written i.toNat edit }

end Engine
end Plexus
