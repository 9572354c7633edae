import Plexus.Proofs.Backend.Standing

/-!
# Reading parameters from a backend

What a backend answers when it is asked for its parameters depends on its stage and on the
parameters of its machine only.  It stays the same while the network is run or training is
prepared, and also where a training tick fails.
-/

namespace Plexus

open Attempt

/-- The parameters of the network in a machine, if there is one. -/
def Machine.parameters {α : Type} [Scalar α] (m : Machine α) : Option (Array α × Array α) :=
  match m with
  | .dense _ held => held.arena?.map fun a => (a.weights, a.biases)
  | .graph _ built => built.map fun g => (g.weights, g.bias)

theorem Machine.parameters_withTraining {α : Type} [Scalar α] (settings : TrainingSettings)
    (held : Holding α) (t : TrainingBuffers α) :
    (Machine.dense settings (held.withTraining t)).parameters =
      (Machine.dense settings held).parameters := by
  cases held with
  | nothing | network | deltas | training => rfl

theorem Machine.parameters_withDeltas {α : Type} [Scalar α] (settings : TrainingSettings)
    (held : Holding α) (cells : Array α) (precision : Precision) :
    (Machine.dense settings (held.withDeltas cells precision)).parameters =
      (Machine.dense settings held).parameters := by
  cases held with
  | nothing | network | deltas | training => rfl

namespace Backend

variable {α : Type} [Scalar α]

/-- What a backend answers if it is asked for its parameters. -/
def answer (b : Backend α) : Option (Array α × Array α) := (readParameters.outcome b).1.toOption

theorem outcome_readParameters (b : Backend α) :
    ∃ r, (readParameters : Attempt (Backend α) (Array α × Array α)).outcome b = (r, b) ∧
      r.toOption = if b.stage < .compiled then none else b.machine.parameters := by
  rw [readParameters, outcome_bind, outcome_require]
  by_cases hstage : b.stage < .compiled
  · rw [if_pos hstage, if_pos hstage]
    exact ⟨_, rfl, rfl⟩
  · rw [if_neg hstage, if_neg hstage]
    dsimp only
    rw [outcome_get_bind]
    cases hmachine : b.machine with
    | dense settings held =>
        cases held with
        | nothing | network | deltas | training => exact ⟨_, rfl, rfl⟩
    | graph claims built =>
        cases built with
        | none | some g => exact ⟨_, rfl, rfl⟩

theorem answer_eq (b : Backend α) :
    b.answer = if b.stage < .compiled then none else b.machine.parameters := by
  rcases outcome_readParameters b with ⟨r, hrun, hr⟩
  rw [answer, hrun, hr]

theorem answer_congr {b b' : Backend α} (hstage : b'.stage = b.stage)
    (hparameters : b'.machine.parameters = b.machine.parameters) : b'.answer = b.answer := by
  rw [answer_eq, answer_eq, hstage, hparameters]

theorem answer_forward (inputs : Operand α) :
    Respects (Fixes answer) (forward inputs : Attempt (Backend α) (Array α)) := by
  refine (respects_require _ _).bind fun _ => (respects_of inputs).bind fun xs => ?_
  refine respects_get_bind fun b => ?_
  dsimp only
  by_cases hfits : (!b.fits xs) = true
  · rw [if_pos hfits]
    exact refl b
  · rw [if_neg hfits]
    split
    · next settings a hmachine => exact answer_congr rfl (by rw [hmachine]; rfl)
    · exact ((respects_of _).bind fun rows => respects_pure _) b
    · exact refl b

theorem answer_setTargets (targets : Operand α) :
    Respects (Fixes answer) (setTargets targets : Attempt (Backend α) Unit) := by
  refine respects_requireTraining.bind fun _ => (respects_require _ _).bind fun _ => ?_
  refine (respects_checkTargets targets).bind fun ts => respects_get_bind fun b => ?_
  cases hmachine : b.machine with
  | graph claims built => exact refl b
  | dense settings held =>
      dsimp only
      cases ht : held.training? with
      | none => exact refl b
      | some t =>
          refine answer_congr rfl ?_
          rw [hmachine]
          exact Machine.parameters_withTraining settings held _

theorem answer_of_unprepared {b b' : Backend α} (h : b.Unprepared b') : b'.answer = b.answer := by
  rcases h with rfl | ⟨settings, held, cells, precision, hmachine, rfl⟩
  · rfl
  · refine answer_congr rfl ?_
    rw [hmachine]
    exact Machine.parameters_withDeltas settings held cells precision

/-- Training can be prepared only where parameters can be read before and after. -/
theorem answer_prepareTraining (targets : Operand α) (rate : Except Fault Float) :
    Respects (Fixes answer) (prepareTraining targets rate : Attempt (Backend α) Unit) := by
  intro b
  rcases prepareTraining_cases targets rate b with
    ⟨f, b', hrun, hleft⟩ | ⟨settings, held, t, x, hmachine, -, -, hrun⟩
  · rw [after_of_outcome hrun]
    exact answer_of_unprepared hleft
  · have hstage := (stage_of_require (trainable_of_requireTraining hrun).2).1
    have hbefore : ¬b.stage < .compiled := Nat.not_lt.mpr hstage
    have hafter : ¬Stage.trainable < .compiled := by decide
    rw [after_of_outcome hrun, Fixes, answer_eq, answer_eq, if_neg hbefore, if_neg hafter,
      hmachine]
    exact Machine.parameters_withTraining settings held t

theorem answer_configure (settings : TrainingSettings) (b : Backend α) :
    (b.configure settings).answer = b.answer := by
  refine answer_congr (stage_configure settings b) ?_
  cases hmachine : b.machine with
  | dense old held => simp only [configure, hmachine, Machine.parameters]
  | graph claims built => simp only [configure, hmachine]

theorem answer_of_trainTick_eq_error {deltas : Option (Operand α)} {b b' : Backend α} {f : Fault}
    (h : (trainTick deltas).outcome b = (.error f, b')) : b'.answer = b.answer := by
  rcases unmoved_of_trainTick_eq_error h with rfl | ⟨settings, a, a', hmachine, rfl, hw, hb⟩
  · rfl
  · refine answer_congr rfl ?_
    rw [hmachine]
    simp only [Machine.parameters, Holding.arena?, Option.map_some, hw, hb]

end Backend
end Plexus
