import Plexus.Attempt
import Plexus.Backend.Arena
import Plexus.Backend.Device
import Plexus.Backend.OpGraph
import Plexus.Settings.Training

/-!
# Backends

A backend runs one network.  It is set up in stages: a device is acquired, a network is
prepared, training is prepared.  Both kinds of backends share the stages and the checks of
operands, and so fail in the same way; they differ in how they keep the network.  Each
operation checks its operands before it changes anything.
-/

namespace Plexus

/-- A network to prepare, with the lengths of its parts checked. -/
structure Network (α : Type) where
  size : Nat
  batch : Number
  weights : Array α
  biases : Array α
  codes : List Activation

/-- How a backend keeps its network. -/
inductive Machine (α : Type) where
  /-- In buffers; it can be trained. -/
  | dense (settings : TrainingSettings) (held : Holding α)
  /-- As a graph of operations.  It may claim to be trainable, but has no buffers for it. -/
  | graph (claimsTraining : Bool) (built : Option (OpGraph α))

namespace Machine

variable {α : Type} [Scalar α]

/-- The most rows that an arena can be allocated for. -/
def maxRows : Nat := 2 ^ 31 - 1

/-- The first number of rows that cannot be asked for. -/
def rowLimit : Nat := 2 ^ 63

/-- The number of rows to allocate buffers for, which may be too many to have. -/
def rows (batch : Number) : Except Fault Nat := do
  let rows ← batch.extent
  if rowLimit ≤ rows then throw .mistyped
  return rows.toNat

/-- Whether a memory has room for buffers of some rows of a network. -/
def hasRoom (memory : Memory) (size rows : Nat) : Bool :=
  rows ≤ maxRows && memory.hasRoom size rows

/--
The machine with its network replaced.  Buffers are allocated for a whole number of rows; a
graph of operations does not depend on it.
-/
def load (memory : Memory) (n : Network α) : Machine α → Except Fault (Machine α)
  | .dense settings _ => do
      let rows ← rows n.batch
      if !hasRoom memory n.size rows then throw .deviceRefused
      return .dense settings (.network
        (Arena.allocate settings.basePrecision n.size rows n.weights n.biases n.codes))
  | .graph claims _ => return .graph claims (some (OpGraph.build n.size n.weights n.biases n.codes))

/-- The machine without a network. -/
def unload : Machine α → Machine α
  | .dense settings _ => .dense settings .nothing
  | .graph claims _ => .graph claims none

end Machine

/-- A backend. -/
structure Backend (α : Type) where
  host : Host
  /-- The device that was asked for, as it was given. -/
  requested : Value
  device : Option Device
  stage : Stage
  size : Nat
  /-- The number of samples of a tick, as it was given. -/
  givenBatch : Number
  machine : Machine α

namespace Backend

variable {α : Type} [Scalar α]

/-- A backend that nothing has been done with. -/
def fresh (host : Host) (requested : Value) (machine : Machine α) : Backend α :=
  { host, requested, device := none, stage := .uninitialized, size := 0, givenBatch := .whole 1,
    machine }

/-- A dense backend. -/
def dense (host : Host) (requested : Value) (settings : TrainingSettings) : Backend α :=
  fresh host requested (.dense settings .nothing)

/-- A backend of operation graphs. -/
def graph (host : Host) (requested : Value) (claimsTraining : Bool) : Backend α :=
  fresh host requested (.graph claimsTraining none)

/-- The name of a backend in messages. -/
def name (b : Backend α) : String :=
  match b.machine with
  | .dense .. => "dense-matrix"
  | .graph .. => "graph-built"

/-- Whether a backend says that it can train. -/
def trainable (b : Backend α) : Bool :=
  match b.machine with
  | .dense .. => true
  | .graph claims _ => claims

/-- The settings that a dense backend trains with. -/
def settings (b : Backend α) : Option TrainingSettings :=
  match b.machine with
  | .dense s _ => some s
  | .graph .. => none

/-- The buffers of a dense backend. -/
def held (b : Backend α) : Holding α :=
  match b.machine with
  | .dense _ h => h
  | .graph .. => .nothing

/-- The arena of a dense backend, if it holds one. -/
def arena (b : Backend α) : Option (Arena α) := b.held.arena?

/-- The operation graph of a graph backend, if it holds one. -/
def built (b : Backend α) : Option (OpGraph α) :=
  match b.machine with
  | .dense .. => none
  | .graph _ g => g

/-- The roles of the allocated buffers. -/
def buffers (b : Backend α) : List BufferRole := b.held.roles

/-- The number of workgroups of the network. -/
def workgroupCount (b : Backend α) : Nat := Workgroup.count b.size

/-- The listing of the operation graph. -/
def listing (b : Backend α) : String := (b.built.map OpGraph.describe).getD "Op Graph: <not built>"

/-- The number of samples of a tick. -/
def batch (b : Backend α) : Nat := b.givenBatch.count

/--
The number of cells of an input or of a target vector.  It is a real if the number of samples
is one.
-/
def cells (b : Backend α) : Number :=
  match b.givenBatch with
  | .real x => .real (Float.ofNat b.size * x)
  | n => .whole (b.size * n.count : Nat)

/-- Whether an input or a target vector has as many cells as it needs. -/
def fits (b : Backend α) (xs : Array α) : Bool := b.cells.same (.whole xs.size)

/-- Refuses an operation that comes before the stage it needs. -/
def require (needed : Stage) (operation : String) : Attempt (Backend α) Unit := do
  let b ← get
  if b.stage < needed then throw (.stageTooEarly b.name b.stage operation needed)

/-- Refuses an operation on training if the backend cannot train. -/
def requireTraining : Attempt (Backend α) Unit := do
  let b ← get
  if !b.trainable then throw (.unsupported b.name "training")

/-- Acquires the device. -/
def init : Attempt (Backend α) Unit := do
  let b ← get
  let acceleratorOnly := match b.machine with
    | .dense .. => false
    | .graph .. => true
  let device ← Attempt.of (Device.resolve b.host b.requested acceleratorOnly)
  set { b with device := some device, stage := .ready }

/-- The number of weights of a network of a size, in the form in which the size is given. -/
def weightTotal : Value → Except Fault Value
  | .real x => .ok (.real (x * x))
  | .nan mark => .ok (.nan mark)
  | v => v.toInt.map fun n => .int (n * n)

/-- Checks the parts of a network: batch size, weights, biases, activation tags. -/
def checkNetwork (memory : Memory) (size : Value) (weights biases : Operand α)
    (batch : Except Fault Number) (activations : Except Fault (Option (List Value))) :
    Except Fault (Network α) := do
  let batch ← batch
  if batch.less (.whole 1) then throw (.batchNotPositive "batch_size")
  let weights ← weights
  let biases ← biases
  let total ← weightTotal size
  if !(Value.int weights.size).equal total then throw (.weightCount total weights.size)
  if !(Value.int biases.size).equal size then throw (.biasCount size biases.size)
  let codes ← @Activation.ofTags memory (← activations) size
  return { size := (← size.extent).toNat, batch, weights, biases, codes }

/--
Takes over a network, in place of any earlier one.  The earlier one is dropped before the new
one is allocated, so it is gone even if there is no room for the new one.
-/
def prepare (size : Value) (weights biases : Operand α) (batch : Except Fault Number)
    (activations : Except Fault (Option (List Value))) : Attempt (Backend α) Unit := do
  require .ready "prepare"
  let b ← get
  let n ← Attempt.of (checkNetwork b.host.memory size weights biases batch activations)
  modify fun b => { b with size := n.size, givenBatch := n.batch, machine := b.machine.unload }
  let machine ← Attempt.of ((← get).machine.load b.host.memory n)
  modify fun b => { b with machine, stage := .compiled }

/-- Takes over new settings; a graph backend has none. -/
def configure (settings : TrainingSettings) (b : Backend α) : Backend α :=
  match b.machine with
  | .dense _ h => { b with machine := .dense settings h }
  | .graph .. => b

/-- Drops the network.  An initialised backend stays initialised. -/
def release (b : Backend α) : Backend α :=
  { b with
    machine := b.machine.unload
    stage := if .ready < b.stage then .ready else b.stage }

/-- Runs one forward tick and returns the outputs, row by row. -/
@[specialize] def forward (inputs : Operand α) : Attempt (Backend α) (Array α) := do
  require .compiled "forward"
  let inputs ← Attempt.of inputs
  let b ← get
  if !b.fits inputs then throw (.inputSize b.cells inputs.size)
  match b.machine with
  | .dense settings (.network a) =>
      let a := a.forward b.size b.batch inputs
      set { b with machine := .dense settings (.network a) }
      return a.output
  | .graph _ (some g) =>
      let rows ← Attempt.of b.givenBatch.rows
      return g.run rows inputs
  | _ => throw (.missingKey (.text BufferRole.input.name))

/-- Checks the length of a target vector. -/
def checkTargets (targets : Operand α) : Attempt (Backend α) (Array α) := do
  let targets ← Attempt.of targets
  let b ← get
  if !b.fits targets then throw (.targetSize b.cells targets.size)
  return targets

/--
Allocates the buffers of training.  The deltas come first; they stay if there cannot be targets
for as many rows.
-/
def allocateTraining (targets : Array α) (rate : Float) : Attempt (Backend α) Unit := do
  let b ← get
  match b.machine with
  | .dense settings held =>
      let rows ← Attempt.of (Machine.rows b.givenBatch)
      let deltas := held.withDeltas (Scalar.zeros (rows * b.size)) settings.adapterPrecision
      set { b with machine := .dense settings deltas }
      let rows ← Attempt.of b.givenBatch.rows
      let t := .allocate settings.adapterPrecision b.size rows targets rate
      set { b with machine := .dense settings (held.withTraining t), stage := .trainable }
  | .graph .. => throw (.unsupported b.name "training")

/-- Prepares the prepared network for training. -/
def prepareTraining (targets : Operand α) (rate : Except Fault Float) :
    Attempt (Backend α) Unit := do
  requireTraining
  require .compiled "prepare_training"
  let targets ← checkTargets targets
  let rate ← Attempt.of rate
  allocateTraining targets rate

/-- Overwrites the targets. -/
def setTargets (targets : Operand α) : Attempt (Backend α) Unit := do
  requireTraining
  require .trainable "set_targets"
  let targets ← checkTargets targets
  let b ← get
  match b.machine with
  | .dense settings held =>
      match held.training? with
      | some t =>
          set { b with machine := .dense settings (held.withTraining { t with targets }) }
      | none => throw (.missingKey (.text BufferRole.targets.name))
  | .graph .. => throw (.unsupported b.name "training")

/-- The greatest finite rate; a finite rate beyond it cannot be stored. -/
def greatestRate : Float := 3.4028234663852886e38

/-- Overwrites the learning rate; nothing happens unless training is prepared. -/
def setLearningRate (rate : Except Fault Float) : Attempt (Backend α) Unit := do
  let b ← get
  match b.machine, b.held.training? with
  | .dense settings held, some t =>
      let rate ← Attempt.of rate
      if rate.isFinite && greatestRate < rate.abs then throw .deviceRefused
      let t := { t with rate := Scalar.ofFloat rate }
      set { b with machine := .dense settings (held.withTraining t) }
  | _, _ => return

/-- The buffer that a training tick misses first, of those it needs, if there is no network. -/
def missingRole (b : Backend α) (given : Bool) : BufferRole :=
  if b.held.training?.isSome then .weights
  else if given then .deltas
  else if b.size = 0 then .params
  else .output

/--
What a training tick comes to if there is no network.  Where deltas have a place, those that are
given are first laid out by rows.
-/
def missNetwork (b : Backend α) (given : Bool) : Except Fault Unit :=
  match b.held, given with
  | .deltas .., true => do
      let _ ← b.givenBatch.rows
      throw (.missingKey (.text (b.missingRole false).name))
  | _, _ => throw (.missingKey (.text (b.missingRole given).name))

/-- Checks the length of the deltas that are given for a training tick. -/
def checkDeltas : Option (Operand α) → Attempt (Backend α) (Option (Array α))
  | none => pure none
  | some ds => do
      let ds ← checkTargets ds
      return some ds

/-- Trains the network on some deltas, or on those of the last forward tick. -/
@[specialize] def descend (given : Option (Array α)) : Attempt (Backend α) Unit := do
  let b ← get
  match b.machine with
  | .dense settings (.network a) =>
      match a.training with
      | some t =>
          let ds := a.deltasOf b.size b.batch t given
          let a := a.keepDeltas t ds
          set { b with machine := .dense settings (.network a) }
          Attempt.of (a.checkGradients b.size b.batch settings.rank ds)
          let rank ← Attempt.of (Arena.cutRank b.size settings.rank)
          set { b with
            machine := .dense settings (.network (a.update b.size b.batch rank t ds)) }
      | none => throw .absent
  | .dense .. => Attempt.of (b.missNetwork given.isSome)
  | .graph .. => throw (.unsupported b.name "training")

/-- Runs one training tick against the last forward tick. -/
@[specialize] def trainTick (deltas : Option (Operand α)) : Attempt (Backend α) Unit := do
  requireTraining
  require .trainable "train_tick"
  let deltas ← checkDeltas deltas
  descend deltas

/-- The weights, row by row, and the biases. -/
def readParameters : Attempt (Backend α) (Array α × Array α) := do
  require .compiled "read_parameters"
  let b ← get
  match b.machine with
  | .dense _ (.network a) => return (a.weights, a.biases)
  | .graph _ (some g) => return (g.weights, g.bias)
  | _ => throw (.missingKey (.text BufferRole.weights.name))

/-- The class of a backend in descriptions. -/
def label (b : Backend α) : String :=
  match b.machine with
  | .dense .. => "DenseMatrixBackend"
  | .graph false _ => "GraphBuiltBackend"
  | .graph true _ => "TrainableGraph"

/-- A backend in messages. -/
def describe (b : Backend α) : String :=
  let label := b.label
  let stage := b.stage.name
  let size := b.size
  let batch := b.givenBatch.display
  let device := (b.device.map Device.name).getD "None"
  s!"{label}(state={stage}, size={size}, batch={batch}, device={device})"

end Backend
end Plexus
