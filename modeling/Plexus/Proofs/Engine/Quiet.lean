import Plexus.Proofs.Backend.Reading
import Plexus.Proofs.Engine.Initialised
import Plexus.Proofs.Engine.Tracking

/-!
# What leaves an engine quiet

An engine is quiet while neither its graph nor its compiled graph changes and its backend
answers as before when it is asked for parameters.  Running the network and preparing training
leave an engine quiet on every backend, and so does a training tick that fails.
-/

namespace Plexus
namespace Engine

open Attempt

variable {α β : Type} [Scalar α]

theorem readParameters?_eq (e : Engine α) : e.readParameters? = e.backend.bind Backend.answer := by
  rw [readParameters?]
  cases hb : e.backend with
  | none =>
      rw [outcome_onBackend_of_none hb]
      rfl
  | some b =>
      rw [outcome_onBackend hb]
      rfl

theorem readParameters?_congr {e e' : Engine α} (h : e'.backend = e.backend) :
    e'.readParameters? = e.readParameters? := by
  rw [readParameters?_eq, readParameters?_eq, h]

/-- Parameters that are read have been answered by a backend, which stays as it is. -/
theorem outcome_readParameters_eq_ok {weights biases : Array α} {e e' : Engine α}
    (h : (onBackend Backend.readParameters).outcome e = (.ok (weights, biases), e')) :
    e' = e ∧ e.readParameters? = some (weights, biases) ∧ ∃ b, e.backend = some b := by
  have hread : e.readParameters? = some (weights, biases) := by
    rw [readParameters?, h]
    rfl
  rcases outcome_onBackend_eq_ok h with ⟨b, b', hb, hrun, rfl⟩
  rcases b.outcome_readParameters with ⟨r, hrun', -⟩
  rw [hrun] at hrun'
  cases hrun'
  refine ⟨?_, hread, b, hb⟩
  rw [← hb]

/-- An engine that another one has come to without its graph being changed or compiled. -/
structure Unaltered (e e' : Engine α) : Prop extends Undisturbed e e' where
  compiled : e'.compiled = e.compiled
  ready : e.hasReadyBackend = true → e'.hasReadyBackend = true

/-- An engine that another one has come to without being changed, compiled or trained. -/
structure Quiet (e e' : Engine α) : Prop extends Unaltered e e' where
  trained : e'.trained = e.trained
  answer : e'.readParameters? = e.readParameters?

omit [Scalar α] in
theorem Unaltered.trans {e₁ e₂ e₃ : Engine α} (h : e₁.Unaltered e₂) (h' : e₂.Unaltered e₃) :
    e₁.Unaltered e₃ where
  toUndisturbed := IsTrans.trans _ _ _ h.toUndisturbed h'.toUndisturbed
  compiled := h'.compiled.trans h.compiled
  ready hready := h'.ready (h.ready hready)

instance : IsPreorder (Engine α) Quiet where
  refl _ := ⟨⟨refl _, rfl, id⟩, rfl, rfl⟩
  trans _ _ _ h h' :=
    ⟨h.toUnaltered.trans h'.toUnaltered, h'.trained.trans h.trained, h'.answer.trans h.answer⟩

/-- An engine with the same backend, graph and mark as another one. -/
theorem Undisturbed.quiet {e e' : Engine α} (h : e.Undisturbed e')
    (hcompiled : e'.compiled = e.compiled) (htrained : e'.trained = e.trained)
    (hbackend : e'.backend = e.backend) : e.Quiet e' := by
  refine ⟨⟨h, hcompiled, ?_⟩, htrained, ?_⟩
  · rw [hasReadyBackend, hasReadyBackend, hbackend]
    exact id
  · exact readParameters?_congr hbackend

omit [Scalar α] in
theorem unaltered_of_backend {b b' : Backend α} {e : Engine α} (hb : e.backend = some b)
    (h : b.Stands b') : e.Unaltered { e with backend := some b' } where
  toUndisturbed := ⟨rfl, rfl, rfl, rfl, rfl, rfl⟩
  compiled := rfl
  ready := by
    rw [hasReadyBackend_iff, hasReadyBackend_iff]
    rintro ⟨b₀, hb₀, hready⟩
    rw [hb] at hb₀
    cases hb₀
    exact ⟨b', rfl, h.ready hready⟩

theorem quiet_of_backend {b b' : Backend α} {e : Engine α} (hb : e.backend = some b)
    (hstands : b.Stands b') (hanswer : b'.answer = b.answer) :
    e.Quiet { e with backend := some b' } where
  toUnaltered := unaltered_of_backend hb hstands
  trained := rfl
  answer := by
    rw [readParameters?_eq, readParameters?_eq, hb]
    exact hanswer

theorem quiet_onBackend {step : Attempt (Backend α) β} (hstands : Respects Backend.Stands step)
    (hanswer : Respects (Fixes Backend.answer) step) : Respects Quiet (onBackend step) :=
  respects_onBackend fun _ b hb => quiet_of_backend hb (hstands b) (hanswer b)

theorem quiet_keepTargets (targets : Operand α) : Respects Quiet (keepTargets targets) := by
  refine (respects_of _).bind fun _ => respects_modify fun e => ?_
  exact Undisturbed.quiet ⟨rfl, rfl, rfl, rfl, rfl, rfl⟩ rfl rfl rfl

theorem quiet_takeRate (rate : Option (Except Fault Float)) :
    Respects Quiet (takeRate (α := α) rate) := by
  cases rate with
  | none => exact respects_pure ()
  | some r =>
      refine (respects_of r).bind fun _ => respects_modify fun e => ?_
      exact Undisturbed.quiet ⟨rfl, rfl, rfl, rfl, rfl, rfl⟩ rfl rfl rfl

theorem running_quiet : Running (Quiet (α := α)) where
  staged _ _ := Undisturbed.quiet ⟨rfl, rfl, rfl, rfl, rfl, rfl⟩ rfl rfl rfl
  audience _ _ := Undisturbed.quiet ⟨rfl, rfl, rfl, rfl, rfl, rfl⟩ rfl rfl rfl
  forward inputs :=
    quiet_onBackend (fun b => (Backend.ticked_forward inputs b).stands)
      (Backend.answer_forward inputs)
  supervise targets := by
    refine respects_get_bind fun e => ?_
    refine ((quiet_onBackend (Backend.stands_prepareTraining targets _)
      (Backend.answer_prepareTraining targets _)).bind fun _ => quiet_keepTargets targets) e
  setTargets targets :=
    (quiet_onBackend (fun b => (Backend.ticked_setTargets targets b).stands)
      (Backend.answer_setTargets targets)).bind fun _ => quiet_keepTargets targets

theorem quiet_retrained (e : Engine α) (settings : TrainingSettings) :
    e.Quiet (e.retrained settings) := by
  cases hb : e.backend with
  | none =>
      refine Undisturbed.quiet ⟨rfl, rfl, rfl, rfl, rfl, rfl⟩ rfl rfl ?_
      rw [retrained, updateBackend, hb, Option.map_none]
  | some b =>
      have hready : .ready ≤ b.stage → .ready ≤ (b.configure settings).stage := by
        rw [b.stage_configure]
        exact id
      refine ⟨⟨⟨rfl, rfl, rfl, rfl, rfl, rfl⟩, rfl, ?_⟩, rfl, ?_⟩
      · rw [hasReadyBackend_iff, hasReadyBackend_iff]
        rintro ⟨b₀, hb₀, hstage⟩
        rw [hb] at hb₀
        cases hb₀
        exact ⟨_, congrArg (Option.map (Backend.configure settings)) hb, hready hstage⟩
      · rw [readParameters?_eq, readParameters?_eq, retrained, updateBackend, hb]
        exact b.answer_configure settings

/-- A training tick that fails has trained nothing, on whatever backend. -/
theorem quiet_of_trainTick_eq_error {inputs targets deltas : Option (Operand α)} {e e' : Engine α}
    {f : Fault} (h : (trainTick inputs targets deltas).outcome e = (.error f, e')) :
    e.Quiet e' := by
  have hmeasured := running_quiet.measure inputs targets e
  rcases outcome_bind_eq_error h with h | ⟨loss, t, hmeasure, h⟩
  · rw [after_of_outcome h] at hmeasured
    exact hmeasured
  · rw [after_of_outcome hmeasure] at hmeasured
    rcases outcome_bind_eq_error h with h | ⟨_, u, -, h⟩
    · refine IsTrans.trans _ _ _ hmeasured ?_
      cases hb : t.backend with
      | none =>
          rw [outcome_onBackend_of_none hb] at h
          cases h
          exact refl _
      | some b =>
          have hstands := (Backend.ticked_trainTick deltas b).stands
          rw [outcome_onBackend hb, Prod.mk.injEq] at h
          rw [← h.2]
          exact quiet_of_backend hb hstands
            (Backend.answer_of_trainTick_eq_error (Prod.ext h.1 rfl))
    · cases h

theorem trained_of_trainTick_eq_ok {inputs targets deltas : Option (Operand α)} {e e' : Engine α}
    {loss : α} (h : (trainTick inputs targets deltas).outcome e = (.ok loss, e')) :
    e.Unaltered e' ∧ e'.trained = true := by
  have hmeasured := running_quiet.measure inputs targets e
  rcases outcome_bind_eq_ok h with ⟨x, t, hmeasure, h⟩
  rcases outcome_bind_eq_ok h with ⟨_, u, htick, h⟩
  cases h
  rw [after_of_outcome hmeasure] at hmeasured
  rcases outcome_onBackend_eq_ok htick with ⟨b, b', hb, hrun, rfl⟩
  have hstands := (Backend.ticked_trainTick deltas b).stands
  rw [after_of_outcome hrun] at hstands
  have hafter := hmeasured.toUnaltered.trans (unaltered_of_backend hb hstands)
  refine ⟨⟨⟨?_, ?_, ?_, ?_, ?_, ?_⟩, hafter.compiled, hafter.ready⟩, rfl⟩
  · exact hafter.neuronStore
  · exact hafter.synapseStore
  · exact hafter.neurons
  · exact hafter.synapses
  · exact hafter.settings
  · exact hafter.issued

end Engine
end Plexus
