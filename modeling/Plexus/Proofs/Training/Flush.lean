import Plexus.Proofs.Training.Failure

/-!
# What a flush does

A flush takes the oldest samples from the queue, packs them and has the engine run a training
tick on the packed cells.  This holds of every trainer, whatever state its engine is in, and a
training tick leaves the size of the network and the settings as they are.
-/

namespace Plexus

open Attempt

theorem Number.atMost_of_whole? {n : Number} {k : Int} (h : n.whole? = some k) (m : Int) :
    n.atMost (.whole m) = decide (k ≤ m) := by
  cases n with
  | whole k' =>
      cases h
      exact Number.atMost_whole_whole k m
  | flag b =>
      cases h
      exact Number.atMost_whole_whole (ofFlag b) m
  | real x => cases h

namespace Engine

variable {α β : Type}

/-- What training ticks go by: the compiled graph and the settings. -/
def plan (e : Engine α) : Option (Compiled α) × TrainingSettings := (e.compiled, e.training)

theorem size_of_plan {e e' : Engine α} (h : e'.plan = e.plan) : e'.size = e.size := by
  have hcompiled : e'.compiled = e.compiled := congrArg Prod.fst h
  rw [size, hcompiled, size]

theorem training_of_plan {e e' : Engine α} (h : e'.plan = e.plan) : e'.training = e.training :=
  congrArg Prod.snd h

theorem batch_of_whole? {e : Engine α} {rows : Int}
    (h : e.training.microBatchSize.whole? = some rows) : e.batch = rows.toNat := by
  rw [batch, Number.count, h, Option.getD_some]

theorem batch_of_plan {e e' : Engine α} (h : e'.plan = e.plan) : e'.batch = e.batch := by
  rw [batch, training_of_plan h, batch]

theorem plan_onBackend (step : Attempt (Backend α) β) : Respects (Fixes plan) (onBackend step) :=
  respects_onBackend fun _ _ _ => rfl

variable [Scalar α]

omit [Scalar α] in
theorem plan_keepTargets (targets : Operand α) : Respects (Fixes plan) (keepTargets targets) :=
  (respects_of _).bind fun _ => respects_modify fun _ => rfl

theorem running_plan : Running (Fixes (plan (α := α))) where
  staged _ _ := rfl
  audience _ _ := rfl
  forward _ := plan_onBackend _
  supervise targets :=
    respects_get_bind fun e => ((plan_onBackend _).bind fun _ => plan_keepTargets targets) e
  setTargets targets := (plan_onBackend _).bind fun _ => plan_keepTargets targets

theorem plan_trainTick (inputs targets deltas : Option (Operand α)) :
    Respects (Fixes plan) (trainTick inputs targets deltas) :=
  running_plan.trainTick inputs targets deltas (plan_onBackend _) fun _ => rfl

end Engine

namespace Trainer

variable {α τ : Type}

/-- The samples that the next flush takes. -/
def nextBatch (t : Trainer α τ) : List (Sample α) := t.waiting.take t.engine.batch

theorem waiting_eq_nil_iff {t : Trainer α τ} : t.waiting = [] ↔ t.loop.queue = [] :=
  List.map_eq_nil_iff

theorem waiting_enqueue_ne_nil (sample : Sample α) (t : Trainer α τ) :
    (t.enqueue sample).waiting ≠ [] := by
  rw [waiting_enqueue]
  exact List.append_ne_nil_of_right_ne_nil _ (List.cons_ne_nil _ _)

theorem dequeue_of_empty {t : Trainer α τ} {n : Nat} (h : t.loop.queue = []) : t.dequeue n = t := by
  unfold dequeue
  rw [h, List.drop_nil, ← h]

theorem pending_enqueue (sample : Sample α) (t : Trainer α τ) :
    (t.enqueue sample).loop.pending = t.loop.pending + 1 := by
  rw [← length_waiting, waiting_enqueue, List.length_append, length_waiting]
  rfl

/-- What empties the queue also takes the sample that came last. -/
theorem dequeue_enqueue {t : Trainer α τ} {n : Nat} (s : Sample α) (h : t.loop.pending < n) :
    (t.enqueue s).dequeue n = t.dequeue n := by
  have hall : (t.enqueue s).loop.queue.drop n = t.loop.queue.drop n := by
    rw [List.drop_of_length_le (pending_enqueue s t ▸ h : (t.enqueue s).loop.pending ≤ n),
      List.drop_of_length_le (Nat.le_of_lt h)]
  unfold dequeue
  rw [hall]
  rfl

variable [Scalar α]

/-- A trainer whose engine has run a training tick on some samples, once they were packed. -/
structure Ticked (samples : List (Sample α)) (packed : Sample α) (loss : α) (t t' : Trainer α τ) :
    Prop where
  packs : pack t.engine.size t.engine.batch samples = .ok packed
  trained : (Engine.trainTick (some (.ok packed.inputs)) (some (.ok packed.targets)) none).outcome
    t.engine = (.ok loss, t'.engine)
  now : t'.now = t.now
  loop : t'.loop = { t.loop with ticks := t.loop.ticks + 1 }

theorem ticked_of_trainOn {samples : List (Sample α)} {t t' : Trainer α τ} {loss : α}
    (h : (trainOn samples).outcome t = (.ok loss, t')) :
    ∃ packed, Ticked samples packed loss t t' := by
  rw [trainOn, outcome_get_bind] at h
  rcases outcome_bind_eq_ok h with ⟨_, t₁, hrows, h⟩
  rcases outcome_of_eq_ok hrows with ⟨-, rfl⟩
  rcases outcome_bind_eq_ok h with ⟨packed, t₂, hpacked, h⟩
  rcases outcome_of_eq_ok hpacked with ⟨hpack, rfl⟩
  rcases outcome_bind_eq_ok h with ⟨_, t₃, honEngine, h⟩
  rcases outcome_onPart_eq_ok honEngine with ⟨e, htick, rfl⟩
  cases h
  exact ⟨packed, hpack, htick, rfl, rfl⟩

theorem Ticked.plan {samples : List (Sample α)} {packed : Sample α} {loss : α}
    {t t' : Trainer α τ} (h : Ticked samples packed loss t t') :
    t'.engine.plan = t.engine.plan := by
  have hplan := Engine.plan_trainTick (some (.ok packed.inputs)) (some (.ok packed.targets)) none
    t.engine
  rw [after_of_outcome h.trained] at hplan
  exact hplan

/-- A trainer whose batch size is whole. -/
def Batched (t : Trainer α τ) : Prop := t.engine.training.microBatchSize.whole?.isSome = true

instance (t : Trainer α τ) : Decidable t.Batched := inferInstanceAs (Decidable (_ = true))

omit [Scalar α] in
theorem Batched.of_plan {t t' : Trainer α τ} (h : t.Batched)
    (hplan : t'.engine.plan = t.engine.plan) : t'.Batched := by
  unfold Batched at h ⊢
  rw [Engine.training_of_plan hplan]
  exact h

omit [Scalar α] in
theorem Batched.batch_pos {t : Trainer α τ} (h : t.Batched) : 0 < t.engine.batch := by
  rcases Option.isSome_iff_exists.mp h with ⟨rows, hrows⟩
  exact TrainingSettings.count_microBatchSize_pos hrows

theorem outcome_flush_of_empty {t : Trainer α τ} (h : t.loop.queue = []) :
    flush.outcome t = (.ok none, t) := by
  rw [flush, outcome_get_bind, h]
  rfl

/-- If a sample waits, the next batch is taken from the queue and trained on. -/
theorem outcome_flush_of_batched {t : Trainer α τ} (h : t.Batched) (hsome : t.loop.queue ≠ []) :
    flush.outcome t = (trainOn t.nextBatch >>= fun loss => pure (some loss)).outcome
      (t.dequeue t.engine.batch) := by
  rcases Option.isSome_iff_exists.mp h with ⟨rows, hrows⟩
  have hbatch := Engine.batch_of_whole? hrows
  have htake : (t.loop.queue.take t.engine.batch).map Queued.sample = t.nextBatch := List.map_take
  rw [flush, outcome_get_bind, List.isEmpty_eq_false_iff.mpr hsome, Number.toInt_eq, hrows]
  dsimp only
  rw [if_neg Bool.false_ne_true, outcome_of_ok_bind, ← hbatch, htake]
  rfl

theorem outcome_addSample_of_batched {t : Trainer α τ} {inputs targets : Operand α}
    {sample : Sample α} (h : t.Batched)
    (hcheck : checkSample t.engine.size inputs targets = .ok sample) :
    (addSample inputs targets).outcome t =
      if t.engine.batch ≤ (t.enqueue sample).loop.pending then flush.outcome (t.enqueue sample)
      else (.ok none, t.enqueue sample) := by
  rcases Option.isSome_iff_exists.mp h with ⟨rows, hrows⟩
  have hbatch := Engine.batch_of_whole? hrows
  rw [outcome_addSample_of_checked hcheck, Number.atMost_of_whole? hrows, outcome_ite, hbatch]
  simp only [decide_eq_true_eq, Int.toNat_le, outcome_pure]

/-- A flush that succeeds had nothing to do, or has trained on the next batch. -/
theorem flush_ticks {t t' : Trainer α τ} {r : Option α} (h : flush.outcome t = (.ok r, t')) :
    t.waiting = [] ∧ r = none ∧ t' = t ∨
      t.waiting ≠ [] ∧ t.Batched ∧ ∃ loss packed, r = some loss ∧
          Ticked t.nextBatch packed loss (t.dequeue t.engine.batch) t' := by
  cases hqueue : t.loop.queue with
  | nil =>
      rw [outcome_flush_of_empty hqueue] at h
      cases h
      exact Or.inl ⟨waiting_eq_nil_iff.mpr hqueue, rfl, rfl⟩
  | cons oldest rest =>
      have hsome : t.loop.queue ≠ [] := by
        rw [hqueue]
        exact List.cons_ne_nil _ _
      have hbatched : t.Batched := by
        by_contra hreal
        rw [Batched, Bool.not_eq_true, Option.isSome_eq_false_iff,
          Option.isNone_iff_eq_none] at hreal
        rw [flush, outcome_get_bind, List.isEmpty_eq_false_iff.mpr hsome, Number.toInt_eq,
          hreal] at h
        cases h
      rw [outcome_flush_of_batched hbatched hsome] at h
      rcases outcome_bind_eq_ok h with ⟨loss, t₁, htrain, h⟩
      cases h
      rcases ticked_of_trainOn htrain with ⟨packed, hticked⟩
      exact Or.inr ⟨mt waiting_eq_nil_iff.mp hsome, hbatched, loss, packed, rfl, hticked⟩

end Trainer
end Plexus
