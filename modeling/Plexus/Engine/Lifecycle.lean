import Plexus.Engine.Basic

/-!
# The life of an engine

Initialising an engine acquires a backend, reads the stores and compiles the graph.
Compiling gives the backend the whole graph anew; a backend that refuses it is released,
because its buffers no longer fit the cache.
-/

namespace Plexus
namespace Engine

variable {α : Type} [Scalar α]

/-- Reads the cache anew from the stores. -/
def refresh : Attempt (Engine α) Unit := do
  let neurons ← Attempt.of (← get).neuronStore.getAll
  modify fun e => { e with neurons, written := [] }
  let synapses ← Attempt.of (← get).synapseStore.getAll
  modify fun e => { e with synapses }

/-- Gives up the compiled graph and releases the backend. -/
def abandon : Attempt (Engine α) Unit :=
  modify fun e => updateBackend Backend.release { e with compiled := none, trained := false }

/-- Targets that supervise nothing. -/
def blankTargets (cells : Nat) : Array α := Array.replicate cells Scalar.noTarget

/-- Prepares training again, if it was prepared before: the old targets no longer fit. -/
def renewTargets (cells : Nat) : Attempt (Engine α) Unit := do
  let e ← get
  if e.targets.isSome && e.canTrain then
    let targets := blankTargets cells
    set { e with targets := some targets }
    onBackend (Backend.prepareTraining (.ok targets) e.rate.toFloat)

/-- Takes over a compiled graph that the backend has been prepared with. -/
def install (c : Compiled α) : Attempt (Engine α) Unit := do
  modify fun e => { e with compiled := some c }
  let e ← get
  let rows ← Attempt.of e.training.microBatchSize.toInt
  let cells ← Attempt.of (Value.heldLength e.memory Scalar.bytes (c.size * rows))
  modify fun e => { e with staged := Scalar.zeros cells, trained := false }
  renewTargets cells

/-- Prepares the backend with a compiled graph. -/
def load (c : Compiled α) : Attempt (Engine α) Unit := do
  let e ← get
  onBackend (Backend.prepare (.int c.size) (.ok c.weights) (.ok c.biases)
    (.ok e.training.microBatchSize) (.ok (some c.activations)))

/-- Compiles the cached graph and prepares the backend with it. -/
def compile : Attempt (Engine α) (Compiled α) := do
  let e ← get
  if !e.hasReadyBackend then throw (.engineNotInitialized "compile")
  let c ← Attempt.of (Compiled.compile e.neurons e.synapses)
  Attempt.onFault (load c) abandon
  install c
  return c

/-- Reads the cache anew and, if the backend is ready, compiles. -/
def refreshAndCompile : Attempt (Engine α) Projection := do
  refresh
  if (← get).hasReadyBackend then
    let _ ← compile
  projection

/-- The made-up identifier with a number. -/
def freshId (n : Nat) : String :=
  "00000000-0000-0000-0000-" ++ String.ofList (Decimal.padded 12 n)

/-- Makes up an identifier. -/
def issueId : Attempt (Engine α) String := do
  let e ← get
  set { e with issued := e.issued + 1 }
  return freshId (e.issued + 1)

/-- Stores a network of an input neuron that leads to an output neuron. -/
def seedDefaultNetwork : Attempt (Engine α) Unit := do
  let first := "n1-" ++ (← issueId)
  let second := "n2-" ++ (← issueId)
  onNeurons (Store.create ⟨.text first, .input, 0.0, Neuron.defaultActivation⟩)
  onNeurons (Store.create ⟨.text second, .output, 0.5, Neuron.defaultActivation⟩)
  let id ← issueId
  onSynapses (Store.create ⟨.text id, .text first, .text second, 0.8⟩)

/-- Selects a backend, unless there is one. -/
def acquireBackend : Attempt (Engine α) Unit := do
  let e ← get
  if e.backend.isNone then
    let b ← Attempt.of (Backend.select e.host e.settings e.training (Capabilities.probe e.host))
    set { e with backend := some b }

/-- Sets up a backend that works with the training settings of the engine. -/
def equip : Attempt (Engine α) Unit := do
  acquireBackend
  modify fun e => updateBackend (Backend.configure e.training) e
  if !(← get).hasReadyBackend then onBackend Backend.init

/-- Reads the stores; a graph without neurons may be replaced by the default network. -/
def readGraph : Attempt (Engine α) Unit := do
  refresh
  let e ← get
  if e.neurons.isEmpty && e.settings.seedDefaultNetwork.truth then
    seedDefaultNetwork
    refresh

/-- Initialises the engine. -/
def init : Attempt (Engine α) Projection := do
  equip
  readGraph
  let _ ← compile
  projection

/-- Releases the backend and takes all subscribers off. -/
def close : Attempt (Engine α) Unit :=
  modify fun e =>
    updateBackend Backend.release
      { e with audience := e.audience.clear, compiled := none, targets := none }

end Engine
end Plexus
