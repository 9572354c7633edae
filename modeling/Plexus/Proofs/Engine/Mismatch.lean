import Plexus.Proofs.Backend.Soundness
import Plexus.Proofs.Training.Failure

/-!
# Operands of the wrong size

Preparing training and a training tick are chains of steps, and each operand is checked at the
step that takes it.  So, if an operand has the wrong size, the steps before that one have been
taken and no other: the engine is as they left it.  Targets come first and leave nothing behind.
Inputs come after targets that are given, and deltas come after the forward tick and the report of
the loss.
-/

namespace Plexus

open Attempt

/-- The families of operands that have the wrong size. -/
def Fault.Family.IsSize (k : Fault.Family) : Prop :=
  k = .inputSizeMismatch ∨ k = .targetSizeMismatch

instance (k : Fault.Family) : Decidable k.IsSize := inferInstanceAs (Decidable (_ ∨ _))

theorem Fault.Family.IsSize.ne {k : Fault.Family} (hk : k.IsSize) (k' : Fault.Family)
    (hk' : ¬k'.IsSize) : k' ≠ k := by
  rintro rfl
  exact hk' hk

variable {α β : Type} {k : Fault.Family}

/-!
## Faults that have other causes
-/

theorem Number.avoids_rows (hk : k.IsSize) (n : Number) : Avoids k n.rows := by
  have hextent : Avoids k n.extent := by
    cases n with
    | whole m => exact avoids_ok m
    | flag b | real x => exact avoids_error (hk.ne .type (by decide))
  refine hextent.bind fun m => ?_
  unfold Value.arrayLength
  split
  · exact avoids_error (hk.ne .value (by decide))
  · exact avoids_ok _

theorem Arena.avoids_trained [Scalar α] (hk : k.IsSize) (a : Arena α) (size batch : Nat)
    (rank : Number) (t : TrainingBuffers α) (given : Option (Array α)) :
    Avoids k (a.trained size batch rank t given) := by
  rw [trained]
  refine Avoids.bind ?_ fun _ => Avoids.bind ?_ fun _ => avoids_ok _
  · unfold checkGradients
    split
    · exact avoids_error (hk.ne .numerical (by decide))
    · exact avoids_ok _
  · unfold cutRank
    split
    · refine Avoids.map ?_ _
      rw [Number.toInt_eq]
      split
      · exact avoids_ok _
      · exact avoids_error (hk.ne .type (by decide))
    · exact avoids_ok _

theorem Loss.avoids_squared [Scalar α] (hk : k.IsSize) (outputs targets : Array α) (divisor : α) :
    Avoids k (squared outputs targets (.ok divisor)) := by
  unfold squared
  split
  · exact avoids_ok _
  · split
    · exact avoids_error (hk.ne .index (by decide))
    · exact avoids_ok _

namespace Audience

theorem spares_unsubscribe (hk : k.IsSize) (name : String) : Spares k (unsubscribe name) := by
  refine spares_get_bind fun a => ?_
  split
  · exact avoids_ok _
  · exact avoids_error (hk.ne .key (by decide))

theorem spares_react (hk : k.IsSize) {emitOn : Event → Attempt Audience Unit}
    (h : ∀ e, Spares k (emitOn e)) (name : String) (e : Event) :
    Spares k (react emitOn name e) := by
  refine (spares_modify _).bind fun _ => spares_get_bind fun a => ?_
  cases a.behaviour name with
  | log => exact avoids_ok _
  | raise => exact avoids_error (hk.ne .subscriber (by decide))
  | leave => exact spares_unsubscribe hk name a
  | drop other => exact spares_unsubscribe hk other a
  | add other => exact avoids_ok _
  | clear => exact avoids_ok _
  | emit =>
      refine spares_get_bind (fun a => ?_) a
      split
      · exact avoids_ok _
      · exact (spares_modify _).bind (fun _ => h _) a

theorem spares_deliver {react : String → Event → Attempt Audience Unit} {e : Event}
    (h : ∀ name, Spares k (react name e)) (names : List String) :
    Spares k (Channel.deliver react e names) := by
  induction names with
  | nil => exact spares_pure ()
  | cons name rest ih => exact (h name).bind fun _ => ih

theorem spares_emitWithin (hk : k.IsSize) (depth : Nat) (e : Event) :
    Spares k (emitWithin depth e) := by
  induction depth generalizing e with
  | zero => exact spares_pure ()
  | succ depth ih =>
      exact spares_get_bind fun a => spares_deliver (fun name => spares_react hk ih name e) _ a

theorem spares_emit (hk : k.IsSize) (e : Event) : Spares k (emit e) :=
  spares_get_bind fun a => spares_emitWithin hk _ e a

end Audience

/-!
## Backends
-/

namespace Backend

variable [Scalar α] {b b' : Backend α} {f : Fault}

theorem eq_of_prepareTraining_size {targets : Operand α} {rate : Except Fault Float}
    (hf : f.family.IsSize) (h : (prepareTraining targets rate).outcome b = (.error f, b')) :
    b' = b := by
  rcases strains_of_prepareTraining_eq_error h with hsame | hstrains
  · exact hsame
  · -- What is too large to be allocated has passed the checks of its size.
    cases hstrains with
    | training _ _ _ htargets => exact absurd rfl (Number.avoids_rows hf _ f htargets)

theorem eq_of_trainTick_size {deltas : Option (Operand α)} (hf : f.family.IsSize)
    (h : (trainTick deltas).outcome b = (.error f, b')) : b' = b := by
  rcases strains_of_trainTick_eq_error h with hsame | hstrains
  · exact hsame
  · cases hstrains with
    | update _ _ _ hupdate => exact absurd rfl (Arena.avoids_trained hf _ _ _ _ _ _ f hupdate)

omit [Scalar α] in
theorem avoids_missNetwork (hk : k.IsSize) (b : Backend α) (given : Bool) :
    Avoids k (b.missNetwork given) := by
  unfold missNetwork
  split
  · exact (Number.avoids_rows hk _).bind fun _ =>
      avoids_error (hk.ne .key (by decide))
  · exact avoids_error (hk.ne .key (by decide))

theorem spares_descend (hk : k.IsSize) (given : Option (Array α)) :
    Spares k (descend given : Attempt (Backend α) Unit) := by
  intro b
  cases hmachine : b.machine with
  | graph claims built =>
      rw [descend, outcome_get_bind, hmachine]
      exact avoids_error (hk.ne .unsupportedOperation (by decide))
  | dense settings held =>
      cases held with
      | nothing | deltas | training =>
          rw [descend, outcome_get_bind, hmachine]
          exact avoids_missNetwork hk b given.isSome
      | network a =>
          cases ht : a.training with
          | none =>
              rw [descend, outcome_get_bind, hmachine]
              dsimp only
              rw [ht]
              exact avoids_error (hk.ne .absence (by decide))
          | some t =>
              have htrained := Arena.avoids_trained hk a b.size b.batch settings.rank t given
              rw [outcome_descend hmachine ht]
              split
              · next f hfails => exact avoids_error (htrained f hfails)
              · exact avoids_ok _

/-- Without deltas, there is nothing in a training tick to have the wrong size. -/
theorem spares_trainTick_none (hk : k.IsSize) :
    Spares k (trainTick none : Attempt (Backend α) Unit) := by
  refine Spares.bind ?_ fun _ => Spares.bind ?_ fun _ => spares_descend hk none
  · refine spares_get_bind fun b => ?_
    split
    · exact avoids_error (hk.ne .unsupportedOperation (by decide))
    · exact avoids_ok _
  · refine spares_get_bind fun b => ?_
    split
    · exact avoids_error (hk.ne .notReady (by decide))
    · exact avoids_ok _

end Backend

/-!
## Engines
-/

namespace Engine

variable [Scalar α] {e e' : Engine α} {f : Fault}

omit [Scalar α] in
theorem eq_of_onBackend_eq_error {step : Attempt (Backend α) β}
    (hstep : ∀ b b', step.outcome b = (.error f, b') → b' = b)
    (h : (onBackend step).outcome e = (.error f, e')) : e' = e := by
  cases hb : e.backend with
  | none =>
      rw [outcome_onBackend_of_none hb] at h
      cases h
      rfl
  | some b =>
      rw [outcome_onBackend hb, Prod.mk.injEq] at h
      rcases h with ⟨hfails, rfl⟩
      have hsame : (step.outcome b).2 = b := hstep b _ (Prod.ext hfails rfl)
      rw [hsame, ← hb]

omit [Scalar α] in
/-- Targets that a backend has taken over can be kept. -/
theorem eq_of_keep_eq_error {step : Attempt (Backend α) Unit} {targets : Operand α}
    (hfails : ∀ b b', step.outcome b = (.error f, b') → b' = b)
    (hdone : ∀ b b', step.outcome b = (.ok (), b') → ∃ ts, targets = .ok ts)
    (h : (onBackend step >>= fun _ => keepTargets targets).outcome e = (.error f, e')) :
    e' = e := by
  rcases outcome_bind_eq_error h with h | ⟨_, e₁, htaken, hkept⟩
  · exact eq_of_onBackend_eq_error hfails h
  · rcases outcome_onBackend_eq_ok htaken with ⟨b, b', -, hrun, -⟩
    rcases hdone b b' hrun with ⟨ts, rfl⟩
    cases hkept

theorem eq_of_supervise_size {targets : Operand α} (hf : f.family.IsSize)
    (h : (supervise targets).outcome e = (.error f, e')) : e' = e := by
  rw [supervise, outcome_get_bind] at h
  refine eq_of_keep_eq_error (fun b b' => Backend.eq_of_prepareTraining_size hf) ?_ h
  intro b b' hrun
  rw [Backend.prepareTraining_eq] at hrun
  rcases outcome_bind_eq_ok hrun with ⟨p, _, hread, -⟩
  exact ⟨p.1, (Backend.readTraining_eq_ok hread).1⟩

/-- Preparing training with targets of the wrong size leaves no more than a rate that is given. -/
theorem prepareTraining_size {targets : Operand α} {rate : Option (Except Fault Float)}
    (hf : f.family.IsSize) (h : (prepareTraining targets rate).outcome e = (.error f, e')) :
    e' = e ∨ ∃ x, rate = some (.ok x) ∧ e' = { e with rate := .real x } := by
  rcases (respects_requireTrainable _).check_eq_error h with rfl | ⟨_, -, h⟩
  · exact Or.inl rfl
  rcases outcome_bind_eq_error h with h | ⟨_, e₁, htaken, h⟩
  · cases rate with
    | none => cases h
    | some r =>
        rcases (respects_of r).check_eq_error h with rfl | ⟨x, -, h⟩
        · exact Or.inl rfl
        · cases h
  · have hsame := eq_of_supervise_size hf h
    subst hsame
    cases rate with
    | none =>
        cases htaken
        exact Or.inl rfl
    | some r =>
        rcases outcome_bind_eq_ok htaken with ⟨x, _, hof, htaken⟩
        rcases outcome_of_eq_ok hof with ⟨rfl, rfl⟩
        cases htaken
        exact Or.inr ⟨x, rfl, rfl⟩

theorem eq_of_retarget_size {targets : Option (Operand α)} (hf : f.family.IsSize)
    (h : (retarget targets).outcome e = (.error f, e')) : e' = e := by
  rw [retarget, outcome_get_bind] at h
  split at h
  · next ts b hb =>
    split at h
    · rcases prepareTraining_size hf h with hsame | ⟨x, hrate, -⟩
      · exact hsame
      · cases hrate
    · refine eq_of_keep_eq_error (fun b b' => Backend.atomic_setTargets ts b b' f) ?_ h
      intro b b' hrun
      rcases Backend.trainable_of_requireTraining hrun with ⟨-, hrun⟩
      rcases Backend.stage_of_require hrun with ⟨-, hrun⟩
      rcases outcome_bind_eq_ok hrun with ⟨xs, _, hcheck, -⟩
      exact ⟨xs, (Backend.checkTargets_eq_ok hcheck).1⟩
  · cases h
    rfl
  · split at h
    · cases h
      rfl
    · cases h

theorem atomic_tick (inputs : Option (Operand α)) : Atomic (tick inputs) := by
  refine (respects_requireCompiled _).atomic fun _ => atomic_get_bind fun e e' f h => ?_
  exact eq_of_onBackend_eq_error (fun b b' => Backend.atomic_forward _ b b' f) h

/-- Inputs of the wrong size leave the targets that were given with them. -/
theorem measure_size {inputs targets : Option (Operand α)} (hf : f.family.IsSize)
    (h : (measure inputs targets).outcome e = (.error f, e')) :
    e' = e ∨
      (retarget targets).outcome e = (.ok (), e') ∧ (tick inputs).outcome e' = (.error f, e') := by
  rcases (respects_requireTrainable _).check_eq_error h with rfl | ⟨_, -, h⟩
  · exact Or.inl rfl
  rcases outcome_bind_eq_error h with h | ⟨_, e₁, htaken, h⟩
  · exact Or.inl (eq_of_retarget_size hf h)
  rcases outcome_bind_eq_error h with h | ⟨outputs, e₂, -, h⟩
  · obtain rfl : e' = e₁ := atomic_tick inputs e₁ e' f h
    exact Or.inr ⟨htaken, h⟩
  -- Neither the loss nor a subscriber that fails on it is about the size of an operand.
  have hspares : Spares f.family (do
      let loss ← Attempt.of ((← get).loss outputs)
      onAudience (Audience.emit ⟨.loss, Scalar.toFloat loss⟩)
      return loss : Attempt (Engine α) α) := by
    refine spares_get_bind fun e => Spares.bind (spares_of ?_) (fun loss => ?_) e
    · exact Loss.avoids_squared hf outputs _ _
    · exact (spares_onPart (Audience.spares_emit hf _)).bind fun _ => spares_pure loss
  exact absurd rfl (hspares e₂ f (congrArg Prod.fst h))

omit [Scalar α] in
theorem spares_onBackend (hk : k.IsSize) {step : Attempt (Backend α) β} (h : Spares k step) :
    Spares k (onBackend step) := by
  intro e
  cases hb : e.backend with
  | none =>
      rw [outcome_onBackend_of_none hb]
      exact avoids_error (hk.ne .absence (by decide))
  | some b =>
      rw [outcome_onBackend hb]
      exact h b

/-!
## What stays
-/

section Fixes

variable {γ : Type} (view : Engine α → γ)

omit [Scalar α] in
theorem fixes_onBackend_of_rest
    (hbackend : ∀ (e : Engine α) backend, view { e with backend } = view e)
    (step : Attempt (Backend α) β) : Respects (Fixes view) (onBackend step) :=
  respects_onBackend fun e _ _ => hbackend e _

theorem fixes_retarget (hbackend : ∀ (e : Engine α) backend, view { e with backend } = view e)
    (htargets : ∀ (e : Engine α) targets, view { e with targets } = view e)
    (targets : Option (Operand α)) : Respects (Fixes view) (retarget targets) := by
  have hkeep : ∀ ts, Respects (Fixes view) (keepTargets ts) := fun ts =>
    (respects_of ts).bind fun _ => respects_modify fun e => htargets e _
  refine respects_retarget (fun ts => respects_get_bind fun e => ?_) (fun ts => ?_) targets
  · exact ((fixes_onBackend_of_rest view hbackend _).bind fun _ => hkeep ts) e
  · exact (fixes_onBackend_of_rest view hbackend _).bind fun _ => hkeep ts

theorem fixes_tick (hbackend : ∀ (e : Engine α) backend, view { e with backend } = view e)
    (inputs : Option (Operand α)) : Respects (Fixes view) (tick inputs) :=
  (respects_requireCompiled _).bind fun _ => respects_get_bind fun e =>
    fixes_onBackend_of_rest view hbackend _ e

theorem fixes_measure (hbackend : ∀ (e : Engine α) backend, view { e with backend } = view e)
    (htargets : ∀ (e : Engine α) targets, view { e with targets } = view e)
    (haudience : ∀ (e : Engine α) audience, view { e with audience } = view e)
    (inputs targets : Option (Operand α)) : Respects (Fixes view) (measure inputs targets) := by
  refine (respects_requireTrainable _).bind fun _ =>
    (fixes_retarget view hbackend htargets targets).bind fun _ => ?_
  refine (fixes_tick view hbackend inputs).bind fun outputs => respects_get_bind fun e => ?_
  refine ((respects_of _).bind fun loss => ?_) e
  have hemit : Respects (Fixes view) (onAudience (Audience.emit ⟨.loss, Scalar.toFloat loss⟩)) :=
    fun e => haudience e _
  exact hemit.bind fun _ => respects_pure loss

end Fixes

theorem audience_of_measure {inputs targets : Option (Operand α)} {loss : α}
    (h : (measure inputs targets).outcome e = (.ok loss, e')) :
    e'.audience = (Audience.emit ⟨.loss, Scalar.toFloat loss⟩).after e.audience := by
  rcases outcome_bind_eq_ok h with ⟨_, e₀, hrequire, h⟩
  have hrequired := respects_requireTrainable (R := Eq) "train_tick" e
  rw [after_of_outcome hrequire] at hrequired
  subst hrequired
  rcases outcome_bind_eq_ok h with ⟨_, e₁, htaken, h⟩
  have hretarget := fixes_retarget audience (fun _ _ => rfl) (fun _ _ => rfl) targets e
  rw [after_of_outcome htaken] at hretarget
  rcases outcome_bind_eq_ok h with ⟨outputs, e₂, hran, h⟩
  have hticked := fixes_tick audience (fun _ _ => rfl) inputs e₁
  rw [after_of_outcome hran] at hticked
  rw [outcome_get_bind] at h
  rcases outcome_bind_eq_ok h with ⟨loss', _, hof, h⟩
  rcases outcome_of_eq_ok hof with ⟨-, rfl⟩
  rcases outcome_bind_eq_ok h with ⟨_, e₃, hemit, h⟩
  cases h
  rcases outcome_onPart_eq_ok hemit with ⟨a, hemitted, rfl⟩
  rw [← hretarget, ← hticked, after_of_outcome hemitted]

/-!
## What is left
-/

/-- What a training tick has done that was stopped by an operand of the wrong size. -/
inductive Halted (inputs targets deltas : Option (Operand α)) (f : Fault) (e e' : Engine α) : Prop
  | untouched (h : e' = e)
  /-- The inputs were refused after targets had been taken over, and no event was emitted. -/
  | retargeted (ts : Operand α) (htargets : targets = some ts)
      (htaken : (retarget targets).outcome e = (.ok (), e'))
      (hrefused : (tick inputs).outcome e' = (.error f, e')) (haudience : e'.audience = e.audience)
  /-- The deltas were refused after the loss had been reported. -/
  | measured (ds : Operand α) (hdeltas : deltas = some ds) (loss : α)
      (hmeasured : (measure inputs targets).outcome e = (.ok loss, e'))
      (hrefused : (onBackend (Backend.trainTick deltas)).outcome e' = (.error f, e'))
      (haudience : e'.audience = (Audience.emit ⟨.loss, Scalar.toFloat loss⟩).after e.audience)

theorem halted_of_trainTick_size {inputs targets deltas : Option (Operand α)}
    (hf : f.family.IsSize) (h : (trainTick inputs targets deltas).outcome e = (.error f, e')) :
    Halted inputs targets deltas f e e' := by
  rcases outcome_bind_eq_error h with h | ⟨loss, e₁, hmeasured, h⟩
  · rcases measure_size hf h with rfl | ⟨htaken, hrefused⟩
    · exact .untouched rfl
    have haudience := fixes_retarget audience (fun _ _ => rfl) (fun _ _ => rfl) targets e
    rw [after_of_outcome htaken] at haudience
    cases targets with
    | some ts => exact .retargeted ts rfl htaken hrefused haudience
    | none =>
        -- Without targets there is only a check.
        rw [retarget, outcome_get_bind] at htaken
        dsimp only at htaken
        split at htaken
        · cases htaken
        · cases htaken
          exact .untouched rfl
  · rcases outcome_bind_eq_error h with h | ⟨_, e₂, -, h⟩
    · obtain rfl : e' = e₁ :=
        eq_of_onBackend_eq_error (fun b b' => Backend.eq_of_trainTick_size hf) h
      cases deltas with
      | some ds => exact .measured ds rfl loss hmeasured h (audience_of_measure hmeasured)
      | none =>
          have hspares := spares_onBackend hf (Backend.spares_trainTick_none (α := α) hf)
          exact absurd rfl (hspares e' f (congrArg Prod.fst h))
    · cases h

/--
Where preparing training or a training tick ends in a size error, the engine is what the steps
before the refused operand have made of it.  Preparing training leaves the engine as it was, but
for a rate that is given with it and may be the engine's from then on.  A training tick changes
neither the rate nor the mark nor any parameter, and if its own targets are refused, or no targets
and deltas are given, then nothing at all.
-/
theorem halts_on_size {f : Fault} (hf : f.family.IsSize) (e e' : Engine α) :
    (∀ targets rate, (prepareTraining targets rate).outcome e = (.error f, e') →
      e' = e ∨ ∃ x, rate = some (.ok x) ∧ e' = { e with rate := .real x }) ∧
    ∀ inputs targets deltas, (trainTick inputs targets deltas).outcome e = (.error f, e') →
      e'.rate = e.rate ∧ e'.trained = e.trained ∧ e'.parameters = e.parameters ∧
        Halted inputs targets deltas f e e' := by
  constructor
  · intro targets rate h
    exact prepareTraining_size hf h
  · intro inputs targets deltas h
    have hhalted := halted_of_trainTick_size hf h
    have hkept : (e'.rate, e'.trained) = (e.rate, e.trained) := by
      cases hhalted with
      | untouched hsame => rw [hsame]
      | retargeted ts _ htaken =>
          have hfixed := fixes_retarget (fun e : Engine α => (e.rate, e.trained))
            (fun _ _ => rfl) (fun _ _ => rfl) targets e
          rw [after_of_outcome htaken] at hfixed
          exact hfixed
      | measured ds _ loss hmeasured =>
          have hfixed := fixes_measure (fun e : Engine α => (e.rate, e.trained))
            (fun _ _ => rfl) (fun _ _ => rfl) (fun _ _ => rfl) inputs targets e
          rw [after_of_outcome hmeasured] at hfixed
          exact hfixed
    rw [Prod.mk.injEq] at hkept
    exact ⟨hkept.1, hkept.2, parameters_of_trainTick_eq_error h, hhalted⟩

/-- An engine with a subscriber that notes down the events. -/
def attended : Engine Float32 :=
  (Action.attend (Audience.empty.subscribe "r" .log)).perform.after (init.after linked)

/-- A training tick with targets for both slots, but a delta for only one. -/
def scantDeltas : Attempt (Engine Float32) Float32 :=
  trainTick none (some (.ok #[-999.0, 0.5])) (some (.ok #[0.5]))

/-- Too few deltas move no parameter, and are noticed when the targets have been taken over. -/
theorem halts_on_size_attended :
    ∃ f, f.family = .targetSizeMismatch ∧
      scantDeltas.outcome attended = (.error f, scantDeltas.after attended) ∧
      (scantDeltas.after attended).parameters = attended.parameters ∧
      Halted none (some (.ok #[-999.0, 0.5])) (some (.ok #[0.5])) f attended
        (scantDeltas.after attended) ∧
      (scantDeltas.after attended).targets.isSome = true := by
  have hfails : scantDeltas.family? attended = some .targetSizeMismatch := by decide +kernel
  rcases outcome_of_family? hfails with ⟨f, hf, hrun⟩
  rcases (halts_on_size (Or.inr hf) attended _).2 _ _ _ hrun with ⟨-, -, hparameters, hhalted⟩
  exact ⟨f, hf, hrun, hparameters, hhalted, by decide +kernel⟩

/-- A training tick with targets for both slots, but an input for only one. -/
def scantInputs : Attempt (Engine Float32) Float32 :=
  trainTick (some (.ok #[1.0])) (some (.ok #[-999.0, 0.5])) none

/-- Too few inputs come after targets have been kept, too few deltas after a loss is heard of. -/
theorem not_untouched_attended :
    attended.Reachable Value.IsKey ∧
      (scantInputs.family? attended = some .inputSizeMismatch ∧
        attended.targets.isSome = false ∧ (scantInputs.after attended).targets.isSome = true) ∧
      (scantDeltas.family? attended = some .targetSizeMismatch ∧
        attended.audience.heard.length = 0 ∧
        (scantDeltas.after attended).audience.heard.length = 1) := by
  have hinit : init.succeeds linked = true := by decide +kernel
  refine ⟨(Reachable.opened startable_linked hinit).step (.attend _) trivial, ?_⟩
  decide +kernel

end Engine

end Plexus
