import Plexus.Backend.Select
import Plexus.Compiled.Projection
import Plexus.Compiled.Stats
import Plexus.Store.Basic
import Plexus.Telemetry.Audience

/-!
# Engines

An engine owns the stores of a graph, a cache of what they hold, the compiled graph and
the backend that runs it.  Whatever changes the graph changes the stores first, then reads
the cache anew, and then compiles the whole graph again.

Every operation is an `Attempt`: one that fails leaves what it had done until then, in
the order in which the steps of its definition are written.
-/

namespace Plexus

/-- An engine. -/
structure Engine (α : Type) where
  host : Host
  settings : EngineSettings
  training : TrainingSettings
  neuronStore : Store Neuron
  synapseStore : Store Synapse
  backend : Option (Backend α)
  audience : Audience
  /-- The neurons that were last read from their store. -/
  neurons : List Neuron
  /-- The identifiers of the neurons that were written to their store since then. -/
  written : List Value
  /-- The synapses that were last read from their store. -/
  synapses : List Synapse
  compiled : Option (Compiled α)
  /-- The learning rate. -/
  rate : Number
  /-- The input of ticks that are given none. -/
  staged : Array α
  /-- The targets of training ticks that are given none. -/
  targets : Option (Array α)
  /-- Whether training has changed parameters that are not yet in the stores. -/
  trained : Bool
  /-- The number of identifiers that were made up so far. -/
  issued : Nat

namespace Engine

variable {α β : Type} [Scalar α]

/-- An engine on some stores.  Nothing is read or compiled before it is initialised. -/
def create (host : Host) (settings : EngineSettings) (training : TrainingSettings)
    (neuronStore : Store Neuron) (synapseStore : Store Synapse) (backend : Option (Backend α)) :
    Engine α :=
  { host, settings, training, neuronStore, synapseStore, backend
    audience := .empty
    neurons := []
    written := []
    synapses := []
    compiled := none
    rate := settings.learningRate
    staged := #[]
    targets := none
    trained := false
    issued := 0 }

/-- The number of neurons of the compiled graph; zero without one. -/
def size (e : Engine α) : Nat := (e.compiled.map Compiled.size).getD 0

/-- The memory of the host that the backend runs on. -/
@[reducible] def memory (e : Engine α) : Memory :=
  match e.backend with
  | none => e.host.memory
  | some b => b.host.memory

/-- The number of samples of a tick. -/
def batch (e : Engine α) : Nat := e.training.microBatchSize.count

/-- A step on the store of neurons. -/
def onNeurons (step : Attempt (Store Neuron) β) : Attempt (Engine α) β :=
  Attempt.onPart neuronStore (fun s e => { e with neuronStore := s }) step

/-- A step on the store of synapses. -/
def onSynapses (step : Attempt (Store Synapse) β) : Attempt (Engine α) β :=
  Attempt.onPart synapseStore (fun s e => { e with synapseStore := s }) step

/-- A step on the audience. -/
def onAudience (step : Attempt Audience β) : Attempt (Engine α) β :=
  Attempt.onPart audience (fun a e => { e with audience := a }) step

/-- A step on the backend. -/
def onBackend (step : Attempt (Backend α) β) : Attempt (Engine α) β := fun e =>
  match e.backend with
  | none => (.error .absent, e)
  | some b =>
      let (r, b) := step.outcome b
      (r, { e with backend := some b })

/-- A change of the backend, if there is one. -/
def updateBackend (f : Backend α → Backend α) (e : Engine α) : Engine α :=
  { e with backend := e.backend.map f }

/-- Whether there is a backend that has acquired its device. -/
def hasReadyBackend (e : Engine α) : Bool :=
  match e.backend with
  | none => false
  | some b => b.stage != .uninitialized

/-- Whether there is a backend that can train. -/
def canTrain (e : Engine α) : Bool := (e.backend.map Backend.trainable).getD false

/-- Refuses an operation before the engine is initialised. -/
def requireCompiled (operation : String) : Attempt (Engine α) Unit := do
  let e ← get
  if e.compiled.isNone || e.backend.isNone then throw (.engineNotInitialized operation)

/-- Refuses an operation on training if the backend cannot train. -/
def requireTrainable (operation : String) : Attempt (Engine α) Unit := do
  requireCompiled operation
  match (← get).backend with
  | some b => if !b.trainable then throw (.unsupported b.name operation)
  | none => throw (.engineNotInitialized operation)

/-- The projection of the cached graph. -/
def projection : Attempt (Engine α) Projection := do
  let e ← get
  Attempt.of (Projection.project e.neurons e.synapses)

/-- The statistics of the compiled graph. -/
def stats {ρ : Type} [Ratio ρ] : Attempt (Engine α) (Stats α ρ) := do
  let e ← get
  match e.compiled with
  | none => throw .nothingCompiled
  | some c => return Stats.ofGraph c (some e.neurons)

/-- An engine in messages. -/
def describe (e : Engine α) : String :=
  let neurons := e.neurons.length
  let synapses := e.synapses.length
  let backend := match e.backend with
    | none => Value.null.quoted
    | some b => Text.quoted b.name
  let batch := e.training.microBatchSize.display
  s!"Engine(neurons={neurons}, synapses={synapses}, backend={backend}, batch={batch})"

end Engine
end Plexus
