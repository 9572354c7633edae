import Plexus.Engine.Mutation
import Plexus.Engine.Tick
import Plexus.Training.Moment

/-!
# Trainers

A trainer collects single samples into batches and runs a training tick of its engine for
each.  A batch is flushed when it is full, when its oldest sample has waited long enough,
or on demand; a batch that is not full is padded with rows that supervise nothing.
-/

namespace Plexus

/-- A sample: the inputs and the targets of one row. -/
structure Sample (α : Type) where
  inputs : Array α
  targets : Array α

/-- A sample that waits, and when it arrived. -/
structure Queued (α τ : Type) where
  sample : Sample α
  arrival : τ

/-- What a trainer has run so far. -/
structure TrainingHistory where
  /-- The mean loss of each epoch. -/
  losses : List Float
  /-- The numbers of the epochs. -/
  epochs : List Nat

/-- The part of a trainer that is not its engine. -/
structure TrainingLoop (α τ : Type) where
  queue : List (Queued α τ)
  /-- The number of training ticks that were run. -/
  ticks : Nat
  running : Bool
  history : TrainingHistory

/-- An engine with a training loop and a clock. -/
structure Trainer (α τ : Type) where
  engine : Engine α
  now : τ
  loop : TrainingLoop α τ

namespace TrainingLoop

/-- A loop that has run nothing. -/
def fresh {α τ : Type} : TrainingLoop α τ := ⟨[], 0, false, ⟨[], []⟩⟩

/-- The number of samples that wait. -/
def pending {α τ : Type} (l : TrainingLoop α τ) : Nat := l.queue.length

/--
Starts a loop on an engine, whose learning rate it sets if one is given.  An engine whose
backend cannot train is refused.
-/
def start {α τ : Type} [Scalar α] (rate : Option (Except Fault Float)) :
    Attempt (Engine α) (TrainingLoop α τ) := do
  match (← get).backend with
  | some b => if !b.trainable then throw (.unsupported b.name "training")
  | none => pure ()
  Engine.takeRate rate
  return fresh

end TrainingLoop

namespace Trainer

variable {α τ β : Type} [Scalar α] [Moment τ]

/-- A step on the engine. -/
def onEngine (step : Attempt (Engine α) β) : Attempt (Trainer α τ) β :=
  Attempt.onPart engine (fun e t => { t with engine := e }) step

/-- A change of the loop. -/
def updateLoop (f : TrainingLoop α τ → TrainingLoop α τ) : Attempt (Trainer α τ) Unit :=
  modify fun t => { t with loop := f t.loop }

/-- Lets time pass. -/
def elapse (d : τ) : Attempt (Trainer α τ) Unit :=
  modify fun t => { t with now := Moment.add t.now d }

/-- A row of a batch; a single number fills the whole row. -/
def fitRow (size : Nat) (row : Array α) : Except Fault (Array α) :=
  if row.size = size then .ok row
  else if row.size = 1 then .ok (Array.replicate size (Scalar.cell row 0))
  else .error .badValue

/-- Rows one after the other, padded up to a number of cells. -/
def joinRows (cells : Nat) (padding : α) (rows : List (Array α)) : Array α :=
  let joined := (rows.flatMap Array.toList).toArray
  joined ++ Array.replicate (cells - joined.size) padding

/-- The inputs and the targets of a batch of samples. -/
def pack (size batch : Nat) (samples : List (Sample α)) : Except Fault (Sample α) := do
  let inputs ← samples.mapM fun s => fitRow size s.inputs
  let targets ← samples.mapM fun s => fitRow size s.targets
  return {
    inputs := joinRows (batch * size) Scalar.zero inputs
    targets := joinRows (batch * size) Scalar.noTarget targets }

/-- Runs a training tick on a batch of samples. -/
def trainOn (samples : List (Sample α)) : Attempt (Trainer α τ) α := do
  let e := (← get).engine
  let _ ← Attempt.of e.training.microBatchSize.rows
  let packed ← Attempt.of (pack e.size e.batch samples)
  let loss ← onEngine <|
    Engine.trainTick (some (.ok packed.inputs)) (some (.ok packed.targets)) none
  updateLoop fun l => { l with ticks := l.ticks + 1 }
  return loss

/-- Trains on the oldest samples that wait, one batch of them at most. -/
def flush : Attempt (Trainer α τ) (Option α) := do
  let t ← get
  if t.loop.queue.isEmpty then return none
  let rows ← Attempt.of t.engine.training.microBatchSize.toInt
  let batch := rows.toNat
  updateLoop fun l => { l with queue := l.queue.drop batch }
  let loss ← trainOn ((t.loop.queue.take batch).map Queued.sample)
  return some loss

/-- Checks a sample against the size of the network. -/
def checkSample (size : Nat) (inputs targets : Operand α) : Except Fault (Sample α) := do
  let inputs ← inputs
  let targets ← targets
  if inputs.size ≠ size then throw (.inputSize (.whole size) inputs.size)
  if targets.size ≠ size then throw (.targetSize (.whole size) targets.size)
  return { inputs, targets }

/-- Queues a sample, and trains on a batch if that makes one full. -/
def addSample (inputs targets : Operand α) : Attempt (Trainer α τ) (Option α) := do
  let t ← get
  let sample ← Attempt.of (checkSample t.engine.size inputs targets)
  updateLoop fun l => { l with queue := l.queue ++ [⟨sample, t.now⟩] }
  if t.engine.training.microBatchSize.atMost (.whole (← get).loop.pending) then flush
  else return none

/-- Trains on a batch if the oldest sample has waited long enough. -/
def poll : Attempt (Trainer α τ) (Option α) := do
  let t ← get
  match t.loop.queue with
  | [] => return none
  | oldest :: _ =>
      if Moment.atLeast (Moment.sub t.now oldest.arrival) t.engine.training.idleFlushMs then flush
      else return none

/-- Asks a running trainer to stop. -/
def stop : Attempt (Trainer α τ) Unit := updateLoop fun l => { l with running := false }

end Trainer
end Plexus
