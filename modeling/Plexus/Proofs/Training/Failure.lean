import Plexus.Proofs.Engine.Moves
import Plexus.Proofs.Training.Order

/-!
# What a flush that fails leaves

A flush takes its batch from the queue before it trains on it.  If the training tick fails, for
whatever reason, then nothing has been trained, and still the samples of the batch no longer
wait.  They stay in the queue only if the flush fails before it takes a batch, because the batch
size is no whole number.
-/

namespace Plexus

open Attempt

theorem Number.toInt_eq (n : Number) :
    n.toInt = match n.whole? with
      | some k => .ok k
      | none => .error .mistyped := by
  cases n with
  | flag b | whole k | real x => rfl

namespace Engine

variable {α : Type} [Scalar α]

omit [Scalar α] in
theorem parameters_eq_bind (e : Engine α) : e.parameters = e.backend.bind Backend.parameters := by
  rw [parameters]
  cases e.backend with
  | none | some b => rfl

omit [Scalar α] in
theorem fixes_onBackend {β : Type} {step : Attempt (Backend α) β}
    (h : ∀ b, (step.after b).parameters = b.parameters) :
    Respects (Fixes parameters) (onBackend step) := by
  refine respects_onBackend fun e b hb => ?_
  rw [Fixes, parameters_eq_bind, parameters_eq_bind, hb]
  exact h b

omit [Scalar α] in
theorem fixes_keepTargets (targets : Operand α) :
    Respects (Fixes parameters) (keepTargets targets) :=
  (respects_of _).bind fun _ => respects_modify fun _ => rfl

theorem running_parameters : Running (Fixes (parameters (α := α))) where
  staged _ _ := rfl
  audience _ _ := rfl
  forward inputs := fixes_onBackend fun b => (Backend.calm_forward inputs b).parameters
  supervise targets := by
    refine respects_get_bind fun e => ?_
    refine ((fixes_onBackend fun b => ?_).bind fun _ => fixes_keepTargets targets) e
    rcases Backend.prepareTraining_cases targets e.rate.toFloat b with
      ⟨f, b', hrun, hleft⟩ | ⟨settings, held, t, x, hmachine, -, -, hrun⟩
    · rw [after_of_outcome hrun]
      exact hleft.calm.parameters
    · rw [after_of_outcome hrun]
      exact Backend.parameters_withTraining hmachine rfl
  setTargets targets :=
    (fixes_onBackend fun b => (Backend.calm_setTargets targets b).parameters).bind fun _ =>
      fixes_keepTargets targets

/-- A training tick that fails has trained nothing, whatever state the engine is in. -/
theorem parameters_of_trainTick_eq_error {inputs targets deltas : Option (Operand α)}
    {e e' : Engine α} {f : Fault}
    (h : (trainTick inputs targets deltas).outcome e = (.error f, e')) :
    e'.parameters = e.parameters := by
  have hmeasured := running_parameters.measure inputs targets e
  rcases outcome_bind_eq_error h with h | ⟨loss, e₁, hmeasure, h⟩
  · rw [after_of_outcome h] at hmeasured
    exact hmeasured
  · rw [after_of_outcome hmeasure] at hmeasured
    rcases outcome_bind_eq_error h with h | ⟨_, e₂, -, h⟩
    · refine Eq.trans ?_ hmeasured
      cases hb : e₁.backend with
      | none =>
          rw [outcome_onBackend_of_none hb] at h
          cases h
          rfl
      | some b =>
          rw [outcome_onBackend hb, Prod.mk.injEq] at h
          rw [← h.2, parameters_eq_bind, parameters_eq_bind, hb]
          exact Backend.parameters_of_trainTick_eq_error (Prod.ext h.1 rfl)
    · cases h

end Engine

namespace Trainer

variable {α τ : Type} [Scalar α] [Moment τ]

namespace Call

/-- Whether a call may train on samples that wait. -/
def flushes : Call α τ → Bool
  | .addSample .. | .poll | .flush => true
  | .elapse _ | .setTraining _ => false

/-- Whether a trainer takes in what a call brings. -/
def Fits (t : Trainer α τ) : Call α τ → Prop
  | .addSample inputs targets => ∃ sample, checkSample t.engine.size inputs targets = .ok sample
  | _ => True

/-- The samples that a trainer takes in from a call. -/
def accepted (t : Trainer α τ) : Call α τ → List (Sample α)
  | .addSample inputs targets => (checkSample t.engine.size inputs targets).toOption.toList
  | _ => []

/-- Whether a call that flushes gets as far as taking its batch from the queue. -/
def TakesBatch (t : Trainer α τ) (call : Call α τ) : Prop :=
  call.Fits t ∧ t.engine.training.microBatchSize.whole?.isSome = true

end Call

/-!
## Failing
-/

/-- A trainer that another one has come to by a flush that failed. -/
structure Failed (t t' : Trainer α τ) : Prop where
  parameters : t'.engine.parameters = t.engine.parameters
  ticks : t'.loop.ticks = t.loop.ticks
  nonempty : t.waiting ≠ []
  waiting : t'.waiting =
    if t.engine.training.microBatchSize.whole?.isSome then t.waiting.drop t.engine.batch
    else t.waiting

omit [Moment τ] in
/-- A batch that could not be trained on has not moved any parameter, and no tick is counted. -/
theorem trainOn_eq_error {samples : List (Sample α)} {t t' : Trainer α τ} {f : Fault}
    (h : (trainOn samples).outcome t = (.error f, t')) :
    t'.engine.parameters = t.engine.parameters ∧ t'.loop = t.loop := by
  rw [trainOn, outcome_get_bind] at h
  rcases (respects_of _).check_eq_error h with rfl | ⟨_, -, h⟩
  · exact ⟨rfl, rfl⟩
  rcases (respects_of _).check_eq_error h with rfl | ⟨packed, -, h⟩
  · exact ⟨rfl, rfl⟩
  rcases outcome_bind_eq_error h with h | ⟨loss, t₁, -, h⟩
  · rw [onEngine, outcome_onPart, Prod.mk.injEq] at h
    rw [← h.2]
    exact ⟨Engine.parameters_of_trainTick_eq_error (Prod.ext h.1 rfl), rfl⟩
  · cases h

omit [Moment τ] in
theorem flush_eq_error {t t' : Trainer α τ} {f : Fault}
    (h : flush.outcome t = (.error f, t')) : Failed t t' := by
  rw [flush, outcome_get_bind] at h
  cases hqueue : t.loop.queue with
  | nil =>
      rw [hqueue] at h
      cases h
  | cons oldest rest =>
      have hnonempty : t.waiting ≠ [] := by
        rw [waiting, hqueue]
        exact List.cons_ne_nil _ _
      simp only [hqueue, List.isEmpty_cons, Bool.false_eq_true, if_false, Number.toInt_eq] at h
      cases hwhole : t.engine.training.microBatchSize.whole? with
      | none =>
          rw [hwhole, outcome_of_error_bind] at h
          cases h
          refine ⟨rfl, rfl, hnonempty, ?_⟩
          rw [hwhole]
          rfl
      | some rows =>
          have hbatch : t.engine.batch = rows.toNat := by
            rw [Engine.batch, Number.count, hwhole, Option.getD_some]
          rw [hwhole, outcome_of_ok_bind] at h
          rcases outcome_bind_eq_error h with h | ⟨_, t₁, hdequeue, h⟩
          · cases h
          cases hdequeue
          rcases outcome_bind_eq_error h with h | ⟨loss, t₂, -, h⟩
          · rcases trainOn_eq_error h with ⟨hparameters, hloop⟩
            refine ⟨hparameters, by rw [hloop], hnonempty, ?_⟩
            rw [hwhole, Option.isSome_some, if_pos rfl, waiting, hloop, hbatch]
            exact List.map_drop
          · cases h

omit [Moment τ] in
/-- A sample that fits waits before anything can fail. -/
theorem addSample_eq_error {inputs targets : Operand α} {t t' : Trainer α τ} {f : Fault}
    (h : (addSample inputs targets).outcome t = (.error f, t')) :
    (∃ g, checkSample t.engine.size inputs targets = .error g) ∧ t' = t ∨
      ∃ sample, checkSample t.engine.size inputs targets = .ok sample ∧
        Failed (t.enqueue sample) t' := by
  rw [addSample, outcome_get_bind] at h
  cases hcheck : checkSample t.engine.size inputs targets with
  | error g =>
      rw [hcheck, outcome_of_error_bind] at h
      exact Or.inl ⟨⟨g, rfl⟩, (congrArg Prod.snd h).symm⟩
  | ok sample =>
      rw [hcheck, outcome_of_ok_bind] at h
      refine Or.inr ⟨sample, rfl, ?_⟩
      rcases outcome_bind_eq_error h with h | ⟨_, t₁, henqueue, h⟩
      · cases h
      cases henqueue
      rw [outcome_get_bind] at h
      split at h
      · exact flush_eq_error h
      · cases h

theorem poll_eq_error {t t' : Trainer α τ} {f : Fault} (h : poll.outcome t = (.error f, t')) :
    Failed t t' := by
  rw [poll, outcome_get_bind] at h
  split at h
  · cases h
  · split at h
    · exact flush_eq_error h
    · cases h

/-- A call that fails has refused its sample, or has taken it in and failed in a flush. -/
theorem perform_eq_error {call : Call α τ} {t t' : Trainer α τ} {f : Fault}
    (hflushes : call.flushes = true) (h : call.perform.outcome t = (.error f, t')) :
    ¬call.Fits t ∧ call.accepted t = [] ∧ t' = t ∨
      call.Fits t ∧ ∃ t₁, t₁.waiting = t.waiting ++ call.accepted t ∧ t₁.engine = t.engine ∧
        t₁.loop.ticks = t.loop.ticks ∧ Failed t₁ t' := by
  cases call with
  | addSample inputs targets =>
      rcases addSample_eq_error h with ⟨⟨g, hcheck⟩, rfl⟩ | ⟨sample, hcheck, hfailed⟩
      · refine Or.inl ⟨?_, by rw [Call.accepted, hcheck]; rfl, rfl⟩
        rintro ⟨sample, hfits⟩
        rw [hcheck] at hfits
        cases hfits
      · refine Or.inr ⟨⟨sample, hcheck⟩, t.enqueue sample, ?_, rfl, rfl, hfailed⟩
        rw [waiting_enqueue, Call.accepted, hcheck]
        rfl
  | poll =>
      exact Or.inr ⟨trivial, t, (List.append_nil _).symm, rfl, rfl, poll_eq_error h⟩
  | flush =>
      exact Or.inr ⟨trivial, t, (List.append_nil _).symm, rfl, rfl, flush_eq_error h⟩
  | elapse | setTraining => cases hflushes

/--
A call that fails trains nothing.  Whatever the reason, the samples that have not been trained
on all wait in order if and only if the call did not get as far as taking a batch; if it did,
then as many of the oldest ones as a batch holds are gone.
-/
theorem failed_call_keeps_samples_iff {call : Call α τ} {t t' : Trainer α τ} {f : Fault}
    (hflushes : call.flushes = true) (h : call.perform.outcome t = (.error f, t')) :
    t'.engine.parameters = t.engine.parameters ∧ t'.loop.ticks = t.loop.ticks ∧
      (t'.waiting = t.waiting ++ call.accepted t ↔ ¬call.TakesBatch t) ∧
      (call.TakesBatch t → t'.waiting = (t.waiting ++ call.accepted t).drop t.engine.batch) := by
  rcases perform_eq_error hflushes h with
    ⟨hrefused, hnone, rfl⟩ | ⟨hfits, t₁, hwaiting, hengine, hticks, hfailed⟩
  · refine ⟨rfl, rfl, ⟨fun _ htakes => hrefused htakes.1, fun _ => ?_⟩,
      fun htakes => absurd htakes.1 hrefused⟩
    rw [hnone, List.append_nil]
  · have hleft := hfailed.waiting
    rw [hengine] at hleft
    refine ⟨?_, hfailed.ticks.trans hticks, ?_⟩
    · rw [hfailed.parameters, hengine]
    rw [← hwaiting]
    cases hwhole : t.engine.training.microBatchSize.whole? with
    | none =>
        have hearly : ¬call.TakesBatch t := by
          rintro ⟨-, hsome⟩
          rw [hwhole] at hsome
          cases hsome
        rw [hwhole] at hleft
        exact ⟨⟨fun _ => hearly, fun _ => hleft⟩, fun htakes => absurd htakes hearly⟩
    | some rows =>
        have htakes : call.TakesBatch t := ⟨hfits, by rw [hwhole]; rfl⟩
        have hbatch := TrainingSettings.count_microBatchSize_pos hwhole
        rw [hwhole, Option.isSome_some, if_pos rfl] at hleft
        refine ⟨⟨fun hall => ?_, fun hearly => absurd htakes hearly⟩, fun _ => hleft⟩
        -- At least one sample waited and at least one was taken.
        have hlength := congrArg List.length (hleft.symm.trans hall)
        have hsome := List.length_pos_iff.mpr hfailed.nonempty
        rw [List.length_drop] at hlength
        unfold Engine.batch at hlength
        omega

/-- A sample for a network of two slots, of which the second one is to give a value. -/
def lesson (value : Float32) : Sample Float32 := ⟨#[1.0, 0.0], #[-999.0, value]⟩

/-- A trainer on a closed engine, for which two samples wait. -/
def shut : Trainer Float32 Float where
  engine := Engine.close.after (Engine.init.after Engine.linked)
  now := 0.0
  loop := ⟨[⟨lesson 0.5, 0.0⟩, ⟨lesson 0.25, 0.0⟩], 0, false, ⟨[], []⟩⟩

/-- A closed engine refuses the batch, which is of one sample; the other sample still waits. -/
theorem failed_call_keeps_samples_iff_shut :
    (Call.flush : Call Float32 Float).perform.succeeds shut = false ∧
      shut.waiting = [lesson 0.5, lesson 0.25] ∧
      ((Call.flush : Call Float32 Float).perform.after shut).waiting = [lesson 0.25] := by
  have hfails : (Call.flush : Call Float32 Float).perform.succeeds shut = false := by
    decide +kernel
  rcases outcome_of_not_succeeds hfails with ⟨f, hrun⟩
  have hbatch : shut.engine.batch = 1 := by decide +kernel
  have htakes : (Call.flush : Call Float32 Float).TakesBatch shut :=
    ⟨trivial, by decide +kernel⟩
  have hwaiting := (failed_call_keeps_samples_iff rfl hrun).2.2.2 htakes
  rw [hbatch] at hwaiting
  exact ⟨hfails, rfl, hwaiting⟩

/-- A trainer on an engine with a subscriber that fails on every event. -/
def heckled : Trainer Float32 Float where
  engine := { Engine.init.after Engine.linked with audience := Audience.empty.subscribe "r" .raise }
  now := 0.0
  loop := .fresh

/-- Where a subscriber fails on the loss of a batch, its sample is gone untrained. -/
theorem sample_lost_heckled :
    (Call.addSample (.ok #[1.0, 0.0]) (.ok #[-999.0, 0.5])).accepted heckled = [lesson 0.5] ∧
      ¬∀ call : Call Float32 Float, call.flushes = true → call.perform.succeeds heckled = false →
        (call.perform.after heckled).waiting = heckled.waiting ++ call.accepted heckled := by
  have haccepted : (Call.addSample (.ok #[1.0, 0.0]) (.ok #[-999.0, 0.5])).accepted heckled =
      [lesson 0.5] := by
    have hsize : heckled.engine.size = 2 := by decide +kernel
    rw [Call.accepted, hsize]
    rfl
  refine ⟨haccepted, fun h => ?_⟩
  have hall := h (.addSample (.ok #[1.0, 0.0]) (.ok #[-999.0, 0.5])) rfl (by decide +kernel)
  have hpending : ((Call.addSample (.ok #[1.0, 0.0]) (.ok #[-999.0, 0.5])).perform.after
      heckled).loop.pending = 0 := by decide +kernel
  rw [haccepted] at hall
  rw [← length_waiting, hall] at hpending
  cases hpending

end Trainer
end Plexus
