import Plexus.Proofs.Engine.Action

/-!
# The learning rate that the backend trains with

The learning rate of an engine is copied into a buffer of the backend when training is prepared,
and a training tick uses the buffer.  A step is steady if it leaves the rate of the engine alone
and the backend, if it can still train, either has its buffer from before or has been given the
rate of the engine.  Everything is steady that does not set a rate.
-/

namespace Plexus

open Attempt

namespace Backend

variable {α : Type}

/-- If a backend can train after a step, then it could before, with the same rate. -/
def Lasts (b b' : Backend α) : Prop :=
  b'.stage = .trainable → b.stage = .trainable ∧ b'.rate? = b.rate?

theorem Ticked.lasts {b b' : Backend α} (h : b.Ticked b') : b.Lasts b' :=
  fun hstage => ⟨h.stage ▸ hstage, h.rate⟩

theorem lasts_of_stage {b b' : Backend α} (h : b'.stage ≠ .trainable) : b.Lasts b' :=
  fun hstage => absurd hstage h

theorem lasts_release (b : Backend α) : b.Lasts b.release := lasts_of_stage b.stage_release

theorem lasts_configure (settings : TrainingSettings) (b : Backend α) :
    b.Lasts (b.configure settings) :=
  fun hstage => ⟨b.stage_configure settings ▸ hstage, b.rate?_configure settings⟩

theorem lasts_init (b : Backend α) : b.Lasts ((init : Attempt (Backend α) Unit).after b) := by
  rw [init, after, outcome_get_bind]
  refine bind_induction (I := b.Lasts) (refl (r := Ticked) b).lasts fun device t _ => ?_
  exact lasts_of_stage (by decide : Stage.ready ≠ Stage.trainable)

variable [Scalar α]

/-- If a backend can train after preparing training, then as before, or with the given rate. -/
theorem rate?_prepareTraining (targets : Operand α) (rate : Except Fault Float) (b : Backend α)
    (hstage : ((prepareTraining targets rate).after b).stage = .trainable) :
    (b.stage = .trainable ∧ ((prepareTraining targets rate).after b).rate? = b.rate?) ∨
      ∃ x, rate = .ok x ∧
        ((prepareTraining targets rate).after b).rate? = some (Scalar.ofFloat x) := by
  rcases prepareTraining_cases targets rate b with
    ⟨f, b', hrun, hleft⟩ | ⟨_, held, t, x, -, hx, ht, hrun⟩
  · rw [after_of_outcome hrun] at hstage ⊢
    exact Or.inl ⟨hleft.calm.stage ▸ hstage, hleft.calm.rate⟩
  · rw [after_of_outcome hrun]
    refine Or.inr ⟨x, hx, ?_⟩
    show ((held.withTraining t).training?).map TrainingBuffers.rate = _
    rw [training?_withTraining, Option.map_some, ht]

end Backend

namespace Engine

variable {α β : Type} [Scalar α]

/-- An engine after a step that leaves the rate alone, if the backend has kept it or got it. -/
structure Steady (e e' : Engine α) : Prop where
  rate : e'.rate = e.rate
  supplied : ∀ b', e'.backend = some b' → b'.stage = .trainable →
    (∃ b, e.backend = some b ∧ b.stage = .trainable ∧ b'.rate? = b.rate?) ∨
      ∃ x, e.rate.toFloat = .ok x ∧ b'.rate? = some (Scalar.ofFloat x)

omit [Scalar α] in
theorem steady_of_backend [Scalar α] {e e' : Engine α} (hrate : e'.rate = e.rate)
    (hbackend : e'.backend = e.backend) : e.Steady e' :=
  ⟨hrate, fun b' hb' hstage => Or.inl ⟨b', hbackend ▸ hb', hstage, rfl⟩⟩

theorem Steady.trans {e₁ e₂ e₃ : Engine α} (h : e₁.Steady e₂) (h' : e₂.Steady e₃) :
    e₁.Steady e₃ := by
  refine ⟨h'.rate.trans h.rate, ?_⟩
  intro b₃ hb₃ hstage₃
  rcases h'.supplied b₃ hb₃ hstage₃ with ⟨b₂, hb₂, hstage₂, hrate⟩ | hgiven
  · rw [hrate]
    exact h.supplied b₂ hb₂ hstage₂
  · rw [h.rate] at hgiven
    exact Or.inr hgiven

instance : IsPreorder (Engine α) Steady where
  refl _ := steady_of_backend rfl rfl
  trans _ _ _ h h' := h.trans h'

/-- A backend that cannot train has no rate to keep. -/
theorem steady_of_untrainable {e e' : Engine α} (hrate : e'.rate = e.rate)
    (h : ∀ b', e'.backend = some b' → b'.stage ≠ .trainable) : e.Steady e' :=
  ⟨hrate, fun b' hb' hstage => absurd hstage (h b' hb')⟩

theorem steady_updateBackend {f : Backend α → Backend α} (hf : ∀ b : Backend α, b.Lasts (f b))
    {e e' : Engine α} (hrate : e'.rate = e.rate) (hbackend : e'.backend = e.backend.map f) :
    e.Steady e' := by
  refine ⟨hrate, fun b' hb' hstage => ?_⟩
  rw [hbackend] at hb'
  rcases Option.map_eq_some_iff.mp hb' with ⟨b, hb, rfl⟩
  exact Or.inl ⟨b, hb, hf b hstage⟩

theorem steady_onBackend {step : Attempt (Backend α) β} (h : Respects Backend.Lasts step) :
    Respects Steady (onBackend step) := by
  refine respects_onBackend fun e b hb => ⟨rfl, fun b' hb' hstage => ?_⟩
  cases hb'
  exact Or.inl ⟨b, hb, h b hstage⟩

theorem steady_of_ticked {step : Attempt (Backend α) β} (h : Respects Backend.Ticked step) :
    Respects Steady (onBackend step) :=
  steady_onBackend fun b => (h b).lasts

/-- Preparing training gives the backend the rate of the engine. -/
theorem steady_onBackend_prepareTraining (targets : Operand α) (e : Engine α) :
    e.Steady ((onBackend (Backend.prepareTraining targets e.rate.toFloat)).after e) := by
  cases hb : e.backend with
  | none =>
      rw [after_of_outcome (outcome_onBackend_of_none hb _)]
      exact refl e
  | some b =>
      rw [after_of_outcome (outcome_onBackend hb _)]
      refine ⟨rfl, fun b' hb' hstage => ?_⟩
      cases hb'
      rcases Backend.rate?_prepareTraining targets e.rate.toFloat b hstage with
        ⟨hbefore, hrate⟩ | hgiven
      · exact Or.inl ⟨b, hb, hbefore, hrate⟩
      · exact Or.inr hgiven

/-!
## Compiling
-/

theorem steady_renewTargets (cells : Nat) : Respects Steady (renewTargets (α := α) cells) := by
  refine respects_get_bind fun e => ?_
  split
  · rw [after, outcome_set_bind]
    have hset : e.Steady { e with targets := some (blankTargets cells) } :=
      steady_of_backend rfl rfl
    exact hset.trans (steady_onBackend_prepareTraining _ _)
  · exact refl e

/-- An engine whose backend cannot train, at the rate of another one. -/
structure Untrained (e e' : Engine α) : Prop where
  rate : e'.rate = e.rate
  stage : ∀ b', e'.backend = some b' → b'.stage ≠ .trainable

omit [Scalar α] in
theorem Untrained.steady [Scalar α] {e e' : Engine α} (h : e.Untrained e') : e.Steady e' :=
  steady_of_untrainable h.rate h.stage

/-- Loading a network, or giving it up, leaves a backend that cannot train. -/
theorem untrained_load (c : Compiled α) (e : Engine α) :
    e.Untrained ((onFault (load c) abandon).after e) := by
  rcases load_or_abandon c e with ⟨b, b', -, -, hstage, hrun⟩ | ⟨f, backend, -, hrun⟩
  · rw [after_of_outcome hrun]
    refine ⟨rfl, fun b₁ hb₁ => ?_⟩
    cases hb₁
    rw [hstage]
    exact (by decide : Stage.compiled ≠ Stage.trainable)
  · rw [after_of_outcome hrun]
    refine ⟨rfl, fun b₁ hb₁ => ?_⟩
    rcases Option.map_eq_some_iff.mp hb₁ with ⟨b, -, rfl⟩
    exact Backend.stage_release b

/-!
## Actions
-/

theorem steady_keepTargets (targets : Operand α) : Respects Steady (keepTargets targets) :=
  (respects_of _).bind fun _ => respects_modify fun _ => steady_of_backend rfl rfl

/-- Compiling goes through a state in which the backend cannot train yet. -/
theorem moving_steady : Moving (Steady (α := α)) where
  graph _ _ _ _ _ _ _ := steady_of_backend rfl rfl
  saved _ := steady_of_backend rfl rfl
  read := steady_of_ticked Backend.ticked_readParameters
  load c e := (untrained_load c e).steady
  compiled _ _ := steady_of_backend rfl rfl
  installed _ _ := steady_of_backend rfl rfl
  renewTargets := steady_renewTargets
  acquire e b _ hselect := by
    refine steady_of_untrainable rfl fun b' hb' => ?_
    cases hb'
    rw [(Backend.new_of_select hselect).2]
    exact (by decide : Stage.uninitialized ≠ Stage.trainable)
  boot e _ := steady_onBackend Backend.lasts_init e
  retrained _ settings := steady_updateBackend (Backend.lasts_configure settings) rfl rfl
  staged _ _ := steady_of_backend rfl rfl
  audience _ _ := steady_of_backend rfl rfl
  forward inputs := steady_of_ticked (Backend.ticked_forward inputs)
  supervise targets := by
    refine respects_get_bind fun e => ?_
    refine bind_induction (I := e.Steady) (steady_onBackend_prepareTraining targets e) ?_
    exact fun _ t ht => ht.trans (steady_keepTargets targets t)
  setTargets targets :=
    (steady_of_ticked (Backend.ticked_setTargets targets)).bind fun _ => steady_keepTargets targets

end Engine

namespace Action

open Engine

variable {α : Type} [Scalar α]

/-- Every action is steady that does not set a rate. -/
theorem steady_perform {a : Action α} (h : a.rate? = none) : Respects Steady a.perform := by
  cases a with
  | close => exact fun _ => steady_updateBackend Backend.lasts_release rfl rfl
  | trainTick inputs targets deltas =>
      exact (moving_steady.trainTick inputs targets deltas
        (steady_of_ticked (Backend.ticked_trainTick deltas))
        fun _ => steady_of_backend rfl rfl).void
  | init | compile | addNeuron | addSynapse | deleteNeuron | deleteSynapse | updateSynapseWeight
  | importGraph | exportGraph | syncWeights | injectInput | tick | setTraining | attend =>
      exact respects moving_steady rfl
  | prepareTraining targets rate =>
      cases h
      exact respects moving_steady rfl

end Action
end Plexus
