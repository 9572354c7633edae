import Plexus.Proofs.Training.Epochs
import Plexus.Proofs.Training.Reshaping

/-!
# Streaming a data set

Samples that are handed over one by one, with a flush in the end, are trained on in the batches in
which a fit cuts them.  A fit for one epoch in order is streaming, and then the end of an epoch.
Only where the network is of no size do the two differ, for then cells cannot be cut into rows.
-/

namespace Plexus
namespace Trainer

open Attempt

variable {α τ : Type} [Scalar α]

/-- Queues samples one after the other, flushes what is left, and returns the losses. -/
def stream : List (Sample α) → Attempt (Trainer α τ) (List α)
  | [] => do return (← flush).toList
  | s :: rest => do
      let loss ← addSample (.ok s.inputs) (.ok s.targets)
      let losses ← stream rest
      return loss.toList ++ losses

/-- Fits a data set of some samples. -/
def fitSamples {σ : Type} [Draws σ] (samples : List (Sample α)) (epochs : Value)
    (source : Option σ) : Attempt (Trainer α τ) (List String) :=
  fit (.ok (cellsOf (samples.map Sample.inputs))) (.ok (cellsOf (samples.map Sample.targets)))
    epochs (.ok source)

omit [Scalar α] in
theorem checkSample_of_fits {size : Nat} {s : Sample α} (h : s.Fits size) :
    checkSample size (.ok s.inputs) (.ok s.targets) = .ok s := by
  unfold checkSample
  exact (if_neg (not_not.mpr h.1)).trans (if_neg (not_not.mpr h.2))

/-!
## Batches that fill up
-/

theorem outcome_stream_nil {t : Trainer α τ} (h : t.Batched)
    (hroom : t.loop.pending < t.engine.batch) :
    (stream []).outcome t =
      (trainEach (cut t.engine.batch t.waiting)).outcome (t.dequeue t.engine.batch) := by
  rw [stream]
  by_cases hqueue : t.loop.queue = []
  · rw [outcome_bind_of_ok (outcome_flush_of_empty hqueue), waiting_eq_nil_iff.mpr hqueue,
      cut_nil h.batch_pos, dequeue_of_empty hqueue]
    rfl
  · have hsome : t.waiting ≠ [] := fun hnone => hqueue (waiting_eq_nil_iff.mp hnone)
    have hshort : t.waiting.length ≤ t.engine.batch := by
      rw [length_waiting]
      exact Nat.le_of_lt hroom
    have hnext : t.nextBatch = t.waiting := List.take_of_length_le hshort
    rw [outcome_bind_of_eq (outcome_flush_of_batched h hqueue), cut_of_short hsome hshort, hnext,
      bind_assoc, trainEach]
    rfl

theorem outcome_addSample_of_full {t : Trainer α τ} {s : Sample α} (h : t.Batched)
    (hfits : s.Fits t.engine.size) (hfull : t.loop.pending + 1 = t.engine.batch) :
    (addSample (.ok s.inputs) (.ok s.targets)).outcome t =
      (trainOn (t.waiting ++ [s]) >>= fun loss => pure (some loss)).outcome
        (t.dequeue t.engine.batch) := by
  have hqueue : (t.enqueue s).loop.queue ≠ [] :=
    mt waiting_eq_nil_iff.mpr (waiting_enqueue_ne_nil s t)
  have hnext : (t.enqueue s).nextBatch = t.waiting ++ [s] := by
    rw [nextBatch, waiting_enqueue]
    apply List.take_of_length_le
    rw [List.length_append, length_waiting]
    exact Nat.le_of_eq hfull
  have hbatched : (t.enqueue s).Batched := h
  rw [outcome_addSample_of_batched h (checkSample_of_fits hfits), pending_enqueue,
    if_pos (Nat.le_of_eq hfull.symm), outcome_flush_of_batched hbatched hqueue, hnext]
  exact congrArg _ (dequeue_enqueue s (Nat.lt_of_succ_le (Nat.le_of_eq hfull)))

/-- Once a batch was full, streaming goes on from an empty queue. -/
theorem outcome_stream_of_full {t : Trainer α τ} {s : Sample α} {rest : List (Sample α)}
    (h : t.Batched) (hfits : s.Fits t.engine.size)
    (hfull : t.loop.pending + 1 = t.engine.batch)
    (hrest : ∀ t' : Trainer α τ, t'.engine.plan = t.engine.plan → t'.loop.queue = [] →
      (stream rest).outcome t' = (trainEach (cut t.engine.batch rest)).outcome t') :
    (stream (s :: rest)).outcome t =
      (trainEach ((t.waiting ++ [s]) :: cut t.engine.batch rest)).outcome
        (t.dequeue t.engine.batch) := by
  rw [stream, outcome_bind_of_eq (outcome_addSample_of_full h hfits hfull), bind_assoc, trainEach]
  refine outcome_bind_congr fun loss t' hrun => ?_
  rcases ticked_of_trainOn hrun with ⟨packed, hticked⟩
  have hempty : t'.loop.queue = [] := by
    rw [hticked.loop]
    exact List.drop_of_length_le (Nat.le_of_lt (Nat.lt_of_succ_le (Nat.le_of_eq hfull)))
  rw [pure_bind, outcome_bind_of_eq (hrest t' hticked.plan hempty)]
  rfl

/-- As long as a batch is not full, streaming only queues. -/
theorem outcome_stream_of_room {t : Trainer α τ} {s : Sample α} (h : t.Batched)
    (hfits : s.Fits t.engine.size) (hroom : t.loop.pending + 1 < t.engine.batch)
    (rest : List (Sample α)) :
    (stream (s :: rest)).outcome t = (stream rest).outcome (t.enqueue s) := by
  have hadd : (addSample (.ok s.inputs) (.ok s.targets)).outcome t = (.ok none, t.enqueue s) := by
    rw [outcome_addSample_of_batched h (checkSample_of_fits hfits), pending_enqueue,
      if_neg (Nat.not_le_of_lt hroom)]
  rw [stream, outcome_bind_of_ok hadd]
  show (stream rest >>= pure).outcome _ = _
  rw [bind_pure]

/-- Streaming trains on the batches into which all that waits and all that comes is cut. -/
theorem outcome_stream {samples : List (Sample α)} {t : Trainer α τ} (h : t.Batched)
    (hroom : t.loop.pending < t.engine.batch) (hfits : ∀ s ∈ samples, s.Fits t.engine.size) :
    (stream samples).outcome t =
      (trainEach (cut t.engine.batch (t.waiting ++ samples))).outcome
        (t.dequeue t.engine.batch) := by
  -- Fewer samples wait than a batch holds: the next one leaves room, or it makes the batch full.
  induction samples generalizing t with
  | nil =>
      rw [List.append_nil]
      exact outcome_stream_nil h hroom
  | cons s rest ih =>
      have hs := hfits s List.mem_cons_self
      have hrest : ∀ s ∈ rest, s.Fits t.engine.size :=
        fun s hmem => hfits s (List.mem_cons_of_mem _ hmem)
      rw [List.append_cons]
      by_cases hfull : t.loop.pending + 1 = t.engine.batch
      · have hlength : (t.waiting ++ [s]).length = t.engine.batch := by
          rw [List.length_append, length_waiting]
          exact hfull
        rw [cut_append h.batch_pos hlength]
        refine outcome_stream_of_full h hs hfull fun t' hplan hempty => ?_
        have hnone : t'.loop.pending = 0 := congrArg List.length hempty
        have hbatched := h.of_plan hplan
        have hlater := ih hbatched (hnone ▸ hbatched.batch_pos) (Engine.size_of_plan hplan ▸ hrest)
        rw [waiting_eq_nil_iff.mpr hempty, dequeue_of_empty hempty, Engine.batch_of_plan hplan]
          at hlater
        exact hlater
      · have hshort : t.loop.pending + 1 < t.engine.batch := by omega
        have hlater := ih (t := t.enqueue s) h (pending_enqueue s t ▸ hshort) hrest
        rw [waiting_enqueue] at hlater
        rw [← dequeue_enqueue s hroom]
        exact (outcome_stream_of_room h hs hshort rest).trans hlater

theorem outcome_stream_of_empty {samples : List (Sample α)} {t : Trainer α τ} (h : t.Batched)
    (hempty : t.loop.queue = []) (hfits : ∀ s ∈ samples, s.Fits t.engine.size) :
    (stream samples).outcome t = (trainEach (cut t.engine.batch samples)).outcome t := by
  have hnone : t.loop.pending = 0 := congrArg List.length hempty
  rw [outcome_stream h (hnone ▸ h.batch_pos) hfits, waiting_eq_nil_iff.mpr hempty,
    dequeue_of_empty hempty, List.nil_append]

/-!
## Fitting
-/

omit [Scalar α] in
theorem paired_map (samples : List (Sample α)) :
    paired (samples.map Sample.inputs) (samples.map Sample.targets) = samples := by
  rw [paired, List.zipWith_map, List.zipWith_self]
  exact List.map_id _

section Fit

variable {σ : Type} [Draws σ]

theorem outcome_fitSamples {samples : List (Sample α)} {t : Trainer α τ} {epochs : Value}
    {count : Int} (h : t.Batched) (hsize : t.engine.size ≠ 0)
    (hfits : ∀ s ∈ samples, s.Fits t.engine.size) (hepochs : epochs.toInt = .ok count)
    (source : Option σ) :
    (fitSamples samples epochs source).outcome t =
      (trainPasses 0 ((orders samples.length count.toNat source).map
        (batches t.engine.batch samples)) >>= fun losses => pure (report epochs losses)).outcome
        t := by
  have hinputs : ∀ row ∈ samples.map Sample.inputs, row.size = t.engine.size :=
    List.forall_mem_map.mpr fun s hs => (hfits s hs).1
  have htargets : ∀ row ∈ samples.map Sample.targets, row.size = t.engine.size :=
    List.forall_mem_map.mpr fun s hs => (hfits s hs).2
  have hcounts : (samples.map Sample.inputs).length = (samples.map Sample.targets).length := by
    rw [List.length_map, List.length_map]
  have hdata := dataset_cellsOf hsize hcounts hinputs htargets
  rw [paired_map] at hdata
  rw [fitSamples, outcome_fit_of_ok hdata, outcome_fitOn h hepochs]

end Fit

/--
A trainer for which a fit of some samples is the same as streaming them: in order, it trains on the
same batches and then ends the epoch, and nothing else is different in the end.  In any order, it
trains on all samples once in each epoch.
-/
structure FitsAsStreamed (t : Trainer α τ) (samples : List (Sample α)) : Prop where
  streamed : (stream samples).outcome t = (trainEach (cut t.engine.batch samples)).outcome t
  fitted : ∀ {σ : Type} [Draws σ], (fitSamples samples (.int 1) (none : Option σ)).outcome t =
    (trainPass 0 (cut t.engine.batch samples) >>= fun loss =>
      pure (report (.int 1) [loss])).outcome t
  alike : ∀ {σ : Type} [Draws σ], Reported ((stream samples).after t)
    ((fitSamples samples (.int 1) (none : Option σ)).after t)
  shuffled : ∀ {σ : Type} [Draws σ] (source : Option σ) (count : Int),
    ∃ passes : List (List (List (Sample α))), passes.length = count.toNat ∧
      (∀ groups ∈ passes, groups.flatten.Perm samples ∧
        groups.length = (samples.length + t.engine.batch - 1) / t.engine.batch) ∧
      (fitSamples samples (.int count) source).outcome t =
        (trainPasses 0 passes >>= fun losses => pure (report (.int count) losses)).outcome t ∧
      ∀ lines t', (fitSamples samples (.int count) source).outcome t = (.ok lines, t') →
        t'.loop.ticks = t.loop.ticks +
          count.toNat * ((samples.length + t.engine.batch - 1) / t.engine.batch)

theorem fitsAsStreamed_of_sized {t : Trainer α τ} {samples : List (Sample α)} (h : t.Batched)
    (hempty : t.loop.queue = []) (hsize : t.engine.size ≠ 0)
    (hfits : ∀ s ∈ samples, s.Fits t.engine.size) : FitsAsStreamed t samples := by
  have hstreamed := outcome_stream_of_empty h hempty hfits
  have hfitted : ∀ {σ : Type} [Draws σ],
      (fitSamples samples (.int 1) (none : Option σ)).outcome t =
        (trainPass 0 (cut t.engine.batch samples) >>= fun loss =>
          pure (report (.int 1) [loss])).outcome t := by
    intro σ _
    have hbatches : batches t.engine.batch samples (List.range samples.length) =
        cut t.engine.batch samples := by
      rw [batches_eq_cut (List.Perm.refl _), inOrder_range]
    have hone : (Value.int 1).toInt = .ok 1 := rfl
    rw [outcome_fitSamples h hsize hfits hone, orders, Int.toNat_one, List.replicate_one,
      List.map_singleton, hbatches, trainPasses, bind_assoc]
    rfl
  constructor
  case streamed => exact hstreamed
  case fitted => exact hfitted
  case alike =>
    intro σ _
    have hstream : (stream samples).after t = (trainEach (cut t.engine.batch samples)).after t :=
      congrArg Prod.snd hstreamed
    have hfit : (fitSamples samples (.int 1) (none : Option σ)).after t =
        (trainPass 0 (cut t.engine.batch samples)).after t :=
      (congrArg Prod.snd hfitted).trans (after_bind_pure _ _ t)
    rw [hstream, hfit]
    exact reported_trainPass 0 (cut t.engine.batch samples) t
  case shuffled =>
    intro σ _ source count
    have hcount : (Value.int count).toInt = .ok count := rfl
    have hrun := outcome_fitSamples h hsize hfits hcount source
    have hlength : ((orders samples.length count.toNat source).map
        (batches t.engine.batch samples)).length = count.toNat := by
      rw [List.length_map, length_orders]
    refine ⟨_, hlength, fun groups hmem => batches_of_mem h.batch_pos hmem, hrun, ?_⟩
    intro lines t' hok
    rw [hrun] at hok
    rcases outcome_bind_eq_ok hok with ⟨losses, t₁, hpasses, hend⟩
    cases hend
    rw [ticks_of_trainPasses (fun groups hmem => (batches_of_mem h.batch_pos hmem).2) hpasses,
      hlength]

theorem dataset_of_no_size {inputs targets : Array α} {t : Trainer α τ}
    (h : t.engine.size = 0) :
    dataset t.engine.size (.ok inputs) (.ok targets) = .error .badValue := by
  rw [h]
  rfl

/-- Wherever the network has a size, a fit is the same as streaming. -/
theorem fitsAsStreamed_iff {t : Trainer α τ} (h : t.Batched) (hempty : t.loop.queue = []) :
    (∀ samples : List (Sample α), (∀ s ∈ samples, s.Fits t.engine.size) →
      FitsAsStreamed t samples) ↔ t.engine.size ≠ 0 := by
  constructor
  · intro hall hzero
    have hnone : ∀ s ∈ ([] : List (Sample α)), s.Fits t.engine.size :=
      fun s hs => absurd hs List.not_mem_nil
    rcases (hall [] hnone).shuffled (none : Option Generator) 0 with ⟨passes, hlength, -, hrun, -⟩
    rw [List.length_eq_zero_iff.mp hlength, fitSamples,
      outcome_fit_of_error (dataset_of_no_size hzero)] at hrun
    cases hrun
  · intro hsize samples hfits
    exact fitsAsStreamed_of_sized h hempty hsize hfits

/-- Three samples for a network of two slots. -/
def lessons : List (Sample Float32) := [lesson 0.5, lesson 0.25, lesson 0.0]

theorem fitsAsStreamed_iff_paced :
    paced.Batched ∧ paced.loop.queue = [] ∧ FitsAsStreamed paced lessons ∧
      (stream lessons).succeeds paced = true ∧ ((stream lessons).after paced).loop.ticks = 2 := by
  have hbatched : paced.Batched := by decide +kernel
  have hsize : paced.engine.size ≠ 0 := by
    rw [size_paced]
    decide
  have hfits : ∀ s ∈ lessons, s.Fits paced.engine.size := by
    rw [size_paced]
    simp [lessons, lesson, Sample.Fits]
  exact ⟨hbatched, rfl, (fitsAsStreamed_iff hbatched rfl).mpr hsize lessons hfits,
    by decide +kernel, by decide +kernel⟩

/-- A trainer on an engine without neurons. -/
def vacant : Trainer Float32 Float where
  engine := Engine.init.after <| Engine.create {}
    { EngineSettings.trainable with seedDefaultNetwork := .flag false } .default
    (.keyed .empty) (.keyed .empty) none
  now := 0.0
  loop := .fresh

/-- Samples without components. -/
def blanks : List (Sample Float32) := List.replicate 2 ⟨#[], #[]⟩

/-- Where there is no neuron, samples can be streamed, but no data set can be fitted. -/
theorem fit_refuses_vacant :
    (stream blanks).succeeds vacant = true ∧ ((stream blanks).after vacant).loop.ticks = 2 ∧
      (fitSamples blanks (.int 1) (none : Option Generator)).succeeds vacant = false ∧
      ¬∀ samples : List (Sample Float32), (∀ s ∈ samples, s.Fits vacant.engine.size) →
        FitsAsStreamed vacant samples := by
  have hbatched : vacant.Batched := by decide +kernel
  have hsize : vacant.engine.size = 0 := by decide +kernel
  refine ⟨by decide +kernel, by decide +kernel, by decide +kernel, fun hall => ?_⟩
  exact (fitsAsStreamed_iff hbatched rfl).mp hall hsize

end Trainer
end Plexus
