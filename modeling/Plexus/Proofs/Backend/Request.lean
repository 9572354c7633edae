import Plexus.Proofs.Backend.Interchange
import Plexus.Proofs.Backend.Standing

/-!
# Requests to a backend

All that a backend can be asked for.  A request begins with checks, and they change nothing.
What passes them is carried out, and only three requests can fail while they are: a network may
find no room, the buffers of training may have too many rows, and an update may have no gradients
to apply.
-/

namespace Plexus
namespace Backend

open Attempt

/-- Anything that a backend can be asked for. -/
inductive Request (α : Type) where
  /-- What does not concern training. -/
  | call (c : Call α)
  | prepareTraining (targets : Operand α) (rate : Except Fault Float)
  | setTargets (targets : Operand α)
  | setLearningRate (rate : Except Fault Float)
  | trainTick (deltas : Option (Operand α))
  | configure (settings : TrainingSettings)

variable {α β : Type} [Scalar α]

/-- Does what is asked for. -/
def Request.perform : Request α → Attempt (Backend α) (Answer α)
  | .call c => c.perform
  | .prepareTraining targets rate => do
      Backend.prepareTraining targets rate
      return .nothing
  | .setTargets targets => do
      Backend.setTargets targets
      return .nothing
  | .setLearningRate rate => do
      Backend.setLearningRate rate
      return .nothing
  | .trainTick deltas => do
      Backend.trainTick deltas
      return .nothing
  | .configure settings => do
      modify (Backend.configure settings)
      return .nothing

/-- What requests come to, one after the other: each result with the backend after it. -/
def record : List (Request α) → Backend α → List (Except Fault (Answer α) × Backend α)
  | [], _ => []
  | r :: rest, b => r.perform.outcome b :: record rest (r.perform.after b)

/-- The backend after some requests, those that fail included. -/
def run (rs : List (Request α)) (b : Backend α) : Backend α :=
  rs.foldl (fun b r => r.perform.after b) b

theorem run_concat (rs : List (Request α)) (r : Request α) (b : Backend α) :
    run (rs ++ [r]) b = r.perform.after (run rs b) := by
  rw [run, List.foldl_append]
  rfl

/-!
## Checks and what follows them
-/

/-- The checks of preparing training, and the operands that pass them. -/
def readTraining (targets : Operand α) (rate : Except Fault Float) :
    Attempt (Backend α) (Array α × Float) := do
  requireTraining
  require .compiled "prepare_training"
  let targets ← checkTargets targets
  let rate ← Attempt.of rate
  return (targets, rate)

/-- The checks of a training tick, and the deltas that pass them. -/
def readDeltas (deltas : Option (Operand α)) : Attempt (Backend α) (Option (Array α)) := do
  requireTraining
  require .trainable "train_tick"
  checkDeltas deltas

theorem prepareTraining_eq (targets : Operand α) (rate : Except Fault Float) :
    prepareTraining targets rate =
      readTraining targets rate >>= fun p => allocateTraining p.1 p.2 := by
  simp only [prepareTraining, readTraining, bind_assoc, pure_bind]

theorem trainTick_eq (deltas : Option (Operand α)) :
    trainTick deltas = (readDeltas deltas >>= descend : Attempt (Backend α) Unit) := by
  simp only [trainTick, readDeltas, bind_assoc]

section Checks

variable {R : Backend α → Backend α → Prop} [IsPreorder (Backend α) R]

omit [Scalar α] in
theorem respects_readTraining (targets : Operand α) (rate : Except Fault Float) :
    Respects R (readTraining targets rate : Attempt (Backend α) (Array α × Float)) :=
  respects_requireTraining.bind fun _ => (respects_require _ _).bind fun _ =>
    (respects_checkTargets targets).bind fun _ => (respects_of rate).bind fun _ => respects_pure _

omit [Scalar α] in
theorem respects_readDeltas (deltas : Option (Operand α)) :
    Respects R (readDeltas deltas : Attempt (Backend α) (Option (Array α))) :=
  respects_requireTraining.bind fun _ => (respects_require _ _).bind fun _ =>
    respects_checkDeltas deltas

end Checks

/-!
## What is carried out
-/

/-- A backend that has dropped its network to make room for another one. -/
def cleared (n : Network α) (b : Backend α) : Backend α :=
  { b with size := n.size, givenBatch := n.batch, machine := b.machine.unload }

theorem outcome_prepare (size : Value) (weights biases : Operand α) (batch : Except Fault Number)
    (activations : Except Fault (Option (List Value))) (b : Backend α) :
    (prepare size weights biases batch activations).outcome b =
      if b.stage < .ready then (.error (.stageTooEarly b.name b.stage "prepare" .ready), b)
      else
        match checkNetwork b.host.memory size weights biases batch activations with
        | .error f => (.error f, b)
        | .ok n =>
            match b.machine.unload.load b.host.memory n with
            | .error f => (.error f, b.cleared n)
            | .ok machine => (.ok (), { b.cleared n with machine, stage := .compiled }) := by
  rw [prepare, outcome_bind, outcome_require]
  by_cases hstage : b.stage < .ready
  · rw [if_pos hstage, if_pos hstage]
  · rw [if_neg hstage, if_neg hstage]
    dsimp only
    rw [outcome_get_bind]
    cases hcheck : checkNetwork b.host.memory size weights biases batch activations with
    | error f => rw [outcome_of_error_bind]
    | ok n =>
        rw [outcome_of_ok_bind, outcome_modify_bind, outcome_get_bind]
        dsimp only
        cases hload : b.machine.unload.load b.host.memory n with
        | error f =>
            rw [outcome_of_error_bind]
            rfl
        | ok machine =>
            rw [outcome_of_ok_bind, outcome_modify]
            rfl

theorem outcome_allocateTraining {b : Backend α} {settings : TrainingSettings} {held : Holding α}
    (h : b.machine = .dense settings held) (targets : Array α) (rate : Float) :
    (allocateTraining targets rate).outcome b =
      match Machine.rows b.givenBatch, b.givenBatch.rows with
      | .error f, _ => (.error f, b)
      | .ok rows, .error f =>
          (.error f, { b with
            machine := .dense settings
              (held.withDeltas (Scalar.zeros (rows * b.size)) settings.adapterPrecision) })
      | .ok _, .ok rows =>
          (.ok (), { b with
            machine := .dense settings (held.withTraining
              (.allocate settings.adapterPrecision b.size rows targets rate))
            stage := .trainable }) := by
  rw [allocateTraining, outcome_get_bind, h]
  dsimp only
  cases Machine.rows b.givenBatch with
  | error f => rw [outcome_of_error_bind]
  | ok rows =>
      rw [outcome_of_ok_bind, outcome_set_bind]
      cases b.givenBatch.rows with
      | error f => rw [outcome_of_error_bind]
      | ok rows => rw [outcome_of_ok_bind, outcome_set]

end Backend

/--
The arena after a training tick whose update is to be cut down to a rank, or why there are no
gradients to apply.
-/
def Arena.trained {α : Type} [Scalar α] (a : Arena α) (size batch : Nat) (rank : Number)
    (t : TrainingBuffers α) (given : Option (Array α)) : Except Fault (Arena α) := do
  let deltas := a.deltasOf size batch t given
  (a.keepDeltas t deltas).checkGradients size batch rank deltas
  let rank ← Arena.cutRank size rank
  return a.train size batch rank t given

namespace Backend

open Attempt

variable {α β : Type} [Scalar α]

/-- A training tick changes nothing unless there is a network whose training is prepared. -/
theorem descend_cases (given : Option (Array α)) (b : Backend α) :
    (∃ r, (descend given).outcome b = (r, b)) ∨
      ∃ settings a t, b.machine = .dense settings (.network a) ∧ a.training = some t := by
  rw [descend, outcome_get_bind]
  cases hmachine : b.machine with
  | graph claims built => exact Or.inl ⟨_, rfl⟩
  | dense settings held =>
      cases held with
      | nothing | deltas | training => exact Or.inl ⟨_, rfl⟩
      | network a =>
          cases ht : a.training with
          | some t => exact Or.inr ⟨settings, a, t, rfl, ht⟩
          | none =>
              dsimp only
              rw [ht]
              exact Or.inl ⟨_, rfl⟩

theorem outcome_descend {b : Backend α} {settings : TrainingSettings} {a : Arena α}
    {t : TrainingBuffers α} (h : b.machine = .dense settings (.network a))
    (ht : a.training = some t) (given : Option (Array α)) :
    (descend given).outcome b =
      match a.trained b.size b.batch settings.rank t given with
      | .error f =>
          (.error f, b.withArena settings (a.keepDeltas t (a.deltasOf b.size b.batch t given)))
      | .ok a' => (.ok (), b.withArena settings a') := by
  rw [descend, outcome_get_bind, h]
  dsimp only
  rw [ht]
  dsimp only
  rw [outcome_set_bind, Arena.trained]
  cases (a.keepDeltas t (a.deltasOf b.size b.batch t given)).checkGradients b.size b.batch
      settings.rank (a.deltasOf b.size b.batch t given) with
  | error f =>
      rw [outcome_of_error_bind]
      rfl
  | ok _ =>
      rw [outcome_of_ok_bind]
      cases Arena.cutRank b.size settings.rank with
      | error f =>
          rw [outcome_of_error_bind]
          rfl
      | ok rank =>
          rw [outcome_of_ok_bind, outcome_set]
          rfl

end Backend
end Plexus
