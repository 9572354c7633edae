import Plexus.Decimal.Render
import Plexus.Random.Draws
import Plexus.Training.Trainer
import Plexus.Value.Display

/-!
# Training in epochs

An epoch runs over the rows of a data set in an order of its own, one batch at a time, and
keeps the mean of the losses.
-/

namespace Plexus
namespace Trainer

variable {α τ σ : Type} [Scalar α] [Moment τ]

/-- Cuts cells into rows of a size; they must come out even. -/
def rowsOf (size : Nat) (cells : Array α) : Except Fault (List (Array α)) :=
  if size = 0 ∨ cells.size % size ≠ 0 then .error .badValue
  else .ok ((List.range (cells.size / size)).map fun r =>
    ((List.range size).map fun i => Scalar.cell cells (r * size + i)).toArray)

/-- The samples of a data set. -/
def dataset (size : Nat) (inputs targets : Operand α) : Except Fault (List (Sample α)) := do
  let inputs ← rowsOf size (← inputs)
  let targets ← rowsOf size (← targets)
  if inputs.length ≠ targets.length then throw (.rowCounts inputs.length targets.length)
  return List.zipWith Sample.mk inputs targets

/-- Random orders of `n` rows, one for each of some epochs. -/
def shuffledOrders [Draws σ] (n : Nat) : Nat → σ → List (List Nat)
  | 0, _ => []
  | epochs + 1, s =>
      let (order, s) := Draws.permutation n s
      order :: shuffledOrders n epochs s

/-- The orders of the rows in each epoch: random ones, or the given order if there is no source. -/
def orders [Draws σ] (n epochs : Nat) (source : Option σ) : List (List Nat) :=
  match source with
  | some s => shuffledOrders n epochs s
  | none => List.replicate epochs (List.range n)

/-- The batches of an epoch. -/
def batches (batch : Nat) (samples : List (Sample α)) (order : List Nat) :
    List (List (Sample α)) :=
  let rows := order.filterMap fun r => samples[r]?
  (List.range ((samples.length + batch - 1) / batch)).map fun k =>
    (rows.drop (k * batch)).take batch

/-- Trains on batches and adds their losses to `total`. -/
def trainBatches (total : Float) : List (List (Sample α)) → Attempt (Trainer α τ) Float
  | [] => return total
  | samples :: rest => do
      let loss ← trainOn samples
      trainBatches (total + Scalar.toFloat loss) rest

/-- The line that reports an epoch; the number of epochs is shown as it was given. -/
def epochLine (epoch : Nat) (epochs : Value) (loss : Float) : String :=
  let epochs := epochs.display
  s!"Epoch {epoch}/{epochs}: train_loss=" ++ Decimal.fixed 4 true loss

/-- Whether an epoch is reported: every tenth and the last one are. -/
def isReported (epoch epochs : Nat) : Bool := epoch % 10 == 0 || epoch + 1 == epochs

/-- Trains for an epoch and returns its mean loss; the batch size must be whole. -/
def trainEpoch (batch : Nat) (samples : List (Sample α)) (epoch : Nat) (order : List Nat) :
    Attempt (Trainer α τ) Float := do
  let _ ← Attempt.of (← get).engine.training.microBatchSize.toInt
  let parts := batches batch samples order
  let total ← trainBatches 0.0 parts
  let loss := if parts.isEmpty then 0.0 else total / Float.ofNat parts.length
  updateLoop fun l =>
    { l with history := ⟨l.history.losses ++ [loss], l.history.epochs ++ [epoch]⟩ }
  onEngine (Engine.onAudience (Audience.emit ⟨.epoch, Float.ofNat epoch⟩))
  return loss

/-- Trains for an epoch per order and returns the mean losses. -/
def trainEpochs (batch : Nat) (samples : List (Sample α)) :
    Nat → List (List Nat) → Attempt (Trainer α τ) (List Float)
  | _, [] => return []
  | epoch, order :: rest => do
      let loss ← trainEpoch batch samples epoch order
      let losses ← trainEpochs batch samples (epoch + 1) rest
      return loss :: losses

/-- The report on some epochs, given the mean loss of each. -/
def report (epochs : Value) (losses : List Float) : List String :=
  losses.zipIdx.filterMap fun (loss, epoch) =>
    if isReported epoch losses.length then some (epochLine epoch epochs loss) else none

/--
Trains on a data set for some epochs and returns the lines of the report.  The source of
random orders is looked at after the data, and the number of epochs after that; `none` as
source keeps the rows in order.
-/
def fit [Draws σ] (inputs targets : Operand α) (epochs : Value)
    (source : Except Fault (Option σ)) : Attempt (Trainer α τ) (List String) := do
  let e := (← get).engine
  let samples ← Attempt.of (dataset e.size inputs targets)
  let source ← Attempt.of source
  let count ← Attempt.of epochs.toInt
  let losses ← trainEpochs e.batch samples 0 (orders samples.length count.toNat source)
  return report epochs losses

end Trainer
end Plexus
