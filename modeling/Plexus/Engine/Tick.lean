import Plexus.Engine.Lifecycle
import Plexus.Numeric.Loss

/-!
# Ticks of an engine

A tick runs the compiled graph forward on an input, or on the staged input.  A training
tick runs it forward, reports the loss to the audience, and lets the backend train.
-/

namespace Plexus
namespace Engine

variable {α : Type} [Scalar α]

/-- The staged input with some values in the leading slots of every row. -/
def stage (size batch : Nat) (staged values : Array α) : Array α :=
  ((List.range (batch * size)).map fun cell =>
    match values[cell % size]? with
    | some v => v
    | none => Scalar.cell staged cell).toArray

/-- Stages values as the leading slots of every row; values beyond the network are dropped. -/
def injectInput (values : Operand α) : Attempt (Engine α) Unit := do
  requireCompiled "inject_input"
  let values ← Attempt.of values
  let e ← get
  let _ ← Attempt.of e.training.microBatchSize.rows
  if e.staged.size ≠ e.batch * e.size then throw .badValue
  set { e with staged := stage e.size e.batch e.staged values }

/-- Runs a forward tick. -/
def tick (inputs : Option (Operand α)) : Attempt (Engine α) (Array α) := do
  requireCompiled "tick"
  let e ← get
  onBackend (Backend.forward (inputs.getD (.ok e.staged)))

/-- Keeps targets for training ticks that are given none. -/
def keepTargets (targets : Operand α) : Attempt (Engine α) Unit := do
  let targets ← Attempt.of targets
  modify fun e => { e with targets := some targets }

/-- Takes over a learning rate, if one is given. -/
def takeRate : Option (Except Fault Float) → Attempt (Engine α) Unit
  | none => pure ()
  | some r => do
      let rate ← Attempt.of r
      modify fun e => { e with rate := .real rate }

/-- Has the backend prepare training, and keeps the targets. -/
def supervise (targets : Operand α) : Attempt (Engine α) Unit := do
  let e ← get
  onBackend (Backend.prepareTraining targets e.rate.toFloat)
  keepTargets targets

/-- Prepares training; a learning rate that is given stays. -/
def prepareTraining (targets : Operand α) (rate : Option (Except Fault Float)) :
    Attempt (Engine α) Unit := do
  requireTrainable "prepare_training"
  takeRate rate
  supervise targets

/-- Takes over the targets of a training tick. -/
def retarget (targets : Option (Operand α)) : Attempt (Engine α) Unit := do
  let e ← get
  match targets, e.backend with
  | some ts, some b =>
      if b.stage < .trainable then prepareTraining ts none
      else
        onBackend (Backend.setTargets ts)
        keepTargets ts
  | some _, none => throw .absent
  | none, _ => if e.targets.isNone then throw .trainingNotPrepared

/-- The loss of some outputs against the targets. -/
def loss (e : Engine α) (outputs : Array α) : Except Fault α :=
  Loss.squared outputs (e.targets.getD #[]) (.ok (Loss.divisor e.batch))

/-- Runs a forward tick and reports its loss against the targets. -/
def measure (inputs targets : Option (Operand α)) : Attempt (Engine α) α := do
  requireTrainable "train_tick"
  retarget targets
  let outputs ← tick inputs
  let loss ← Attempt.of ((← get).loss outputs)
  onAudience (Audience.emit ⟨.loss, Scalar.toFloat loss⟩)
  return loss

/-- Runs a training tick and returns the loss before it. -/
def trainTick (inputs targets deltas : Option (Operand α)) : Attempt (Engine α) α := do
  let loss ← measure inputs targets
  onBackend (Backend.trainTick deltas)
  modify fun e => { e with trained := true }
  return loss

end Engine
end Plexus
