import Mathlib.Data.List.Forall2
import Plexus.Proofs.Engine.Reachable
import Plexus.Proofs.Training.Packing

/-!
# The order in which samples are trained on

Whatever a trainer is asked to do while its graph stays as it is, it trains on every sample
that it takes exactly once and in the order of arrival, whether a batch is flushed because it
is full, because its oldest sample has waited long enough, or on demand.
-/

namespace Plexus

namespace Trainer

/-- What a trainer is asked to do while its graph stays as it is. -/
inductive Call (α τ : Type) where
  | addSample (inputs targets : Operand α)
  | poll
  | flush
  | elapse (d : τ)
  | setTraining (settings : TrainingSettings)

/-- A training tick: how many samples waited, the batch size, and what the backend ran on. -/
structure TickRecord (α : Type) where
  waiting : Nat
  batch : Nat
  fed : Option (Array α × Array α)

/-- A trainer and the training ticks that its calls have run. -/
structure Session (α τ : Type) where
  trainer : Trainer α τ
  ticks : List (TickRecord α)

namespace Call

variable {α τ : Type}

/-- The samples that a call brings. -/
def samples : Call α τ → List (Sample α)
  | .addSample (.ok inputs) (.ok targets) => [⟨inputs, targets⟩]
  | _ => []

theorem length_samples_le (call : Call α τ) : call.samples.length ≤ 1 := by
  unfold samples
  split
  · exact Nat.le_refl 1
  · exact Nat.zero_le 1

/-- Whether a call leaves the batch size as it is. -/
def keeps (batch : Nat) : Call α τ → Bool
  | .setTraining settings => settings.microBatchSize.count == batch
  | _ => true

/-- Carries a call out; only a training tick reports a loss. -/
def perform [Scalar α] [Moment τ] : Call α τ → Attempt (Trainer α τ) (Option α)
  | .addSample inputs targets => Trainer.addSample inputs targets
  | .poll => Trainer.poll
  | .flush => Trainer.flush
  | .elapse d => do
      Trainer.elapse d
      return none
  | .setTraining settings => do
      onEngine (Engine.setTraining settings)
      return none

end Call

namespace Session

variable {α τ : Type} [Scalar α] [Moment τ]

/-- Carries a call out and records its training tick; nothing comes after a call that fails. -/
def step (s : Session α τ) (call : Call α τ) : Option (Session α τ) :=
  match call.perform.outcome s.trainer with
  | (.error _, _) => none
  | (.ok none, t) => some { s with trainer := t }
  | (.ok (some _), t) => some {
      trainer := t
      ticks := s.ticks ++
        [⟨s.trainer.loop.pending + call.samples.length, t.engine.batch, t.engine.fed⟩] }

/-- Carries calls out, one after the other. -/
def run (s : Session α τ) (calls : List (Call α τ)) : Option (Session α τ) :=
  calls.foldlM step s

end Session

open Attempt
open Value (IdClass)

variable {α τ : Type} {P : Value → Prop}

/-- The samples that wait. -/
def waiting (t : Trainer α τ) : List (Sample α) := t.loop.queue.map Queued.sample

/-- A trainer with another sample that waits. -/
def enqueue (sample : Sample α) (t : Trainer α τ) : Trainer α τ :=
  { t with loop := { t.loop with queue := t.loop.queue ++ [⟨sample, t.now⟩] } }

/-- A trainer without the oldest samples that wait. -/
def dequeue (n : Nat) (t : Trainer α τ) : Trainer α τ :=
  { t with loop := { t.loop with queue := t.loop.queue.drop n } }

theorem length_waiting (t : Trainer α τ) : t.waiting.length = t.loop.pending :=
  List.length_map _

theorem waiting_enqueue (sample : Sample α) (t : Trainer α τ) :
    (t.enqueue sample).waiting = t.waiting ++ [sample] :=
  List.map_append

theorem waiting_dequeue (n : Nat) (t : Trainer α τ) :
    (t.dequeue n).waiting = t.waiting.drop n :=
  List.map_drop

/-- A trainer on a compiled network, with samples that are as wide as it. -/
structure Ready (P : Value → Prop) (size : Nat) (t : Trainer α τ) : Prop where
  coherent : t.engine.Coherent P
  compiled : t.engine.compiled.isSome = true
  width : t.engine.size = size
  waiting : ∀ s ∈ t.waiting, s.inputs.size = size ∧ s.targets.size = size

/-- The batch size of a compiled engine is whole. -/
theorem Ready.microBatchSize_eq {size : Nat} {t : Trainer α τ} (h : t.Ready P size) :
    t.engine.training.microBatchSize = .whole t.engine.batch := by
  rcases h.coherent.exists_fits h.compiled with ⟨c, rows, a, b, hc, hfits⟩
  rw [hfits.batch_eq]
  exact hfits.batch

theorem Ready.batch_pos {size : Nat} {t : Trainer α τ} (h : t.Ready P size) :
    0 < t.engine.batch := by
  apply TrainingSettings.count_microBatchSize_pos (n := t.engine.batch)
  rw [h.microBatchSize_eq]
  rfl

theorem Ready.enqueue {size : Nat} {t : Trainer α τ} {sample : Sample α} (h : t.Ready P size)
    (hsample : sample.inputs.size = size ∧ sample.targets.size = size) :
    (t.enqueue sample).Ready P size := by
  refine ⟨h.coherent, h.compiled, h.width, ?_⟩
  intro s hs
  rw [waiting_enqueue] at hs
  rcases List.mem_append.mp hs with hs | hs
  · exact h.waiting s hs
  · rw [List.mem_singleton.mp hs]
    exact hsample

theorem Ready.dequeue {size : Nat} {t : Trainer α τ} (h : t.Ready P size) (n : Nat) :
    (t.dequeue n).Ready P size := by
  refine ⟨h.coherent, h.compiled, h.width, ?_⟩
  intro s hs
  rw [waiting_dequeue] at hs
  exact h.waiting s (List.mem_of_mem_drop hs)

variable [Scalar α]

/--
A tick that has trained on samples: as many of those that waited as the batch holds, in its
leading rows, and padding that supervises nothing in all others.
-/
structure Packs (size : Nat) (k : TickRecord α) (samples : List (Sample α)) : Prop where
  length : samples.length = min k.waiting k.batch
  fed : ∃ inputs targets, k.fed = some (inputs, targets) ∧
    Padded size k.batch Scalar.zero (samples.map Sample.inputs) inputs ∧
    Padded size k.batch Scalar.noTarget (samples.map Sample.targets) targets

/-!
## Flushing
-/

theorem trainOn_eq_ok {size : Nat} {t t' : Trainer α τ} {samples : List (Sample α)} {loss : α}
    (h : t.Ready P size)
    (hsamples : ∀ s ∈ samples, s.inputs.size = size ∧ s.targets.size = size)
    (hcount : samples.length ≤ t.engine.batch)
    (hrun : (trainOn samples).outcome t = (.ok loss, t')) :
    t'.Ready P size ∧ t'.engine.training = t.engine.training ∧ t'.waiting = t.waiting ∧
      t'.loop.ticks = t.loop.ticks + 1 ∧
      ∃ inputs targets, t'.engine.fed = some (inputs, targets) ∧
        Padded size t.engine.batch Scalar.zero (samples.map Sample.inputs) inputs ∧
        Padded size t.engine.batch Scalar.noTarget (samples.map Sample.targets) targets := by
  rw [trainOn, outcome_get_bind] at hrun
  rcases outcome_bind_eq_ok hrun with ⟨_, t₁, hrows, hpacking⟩
  rcases outcome_bind_eq_ok hpacking with ⟨packed, t₂, hpacked, hticking⟩
  rcases outcome_of_eq_ok hrows with ⟨-, rfl⟩
  rcases outcome_of_eq_ok hpacked with ⟨hpack, rfl⟩
  rcases outcome_bind_eq_ok hticking with ⟨_, t₃, honEngine, hcounting⟩
  rcases outcome_onPart_eq_ok honEngine with ⟨e, htick, rfl⟩
  cases hcounting
  rw [h.width, pack_eq_ok _ hsamples] at hpack
  cases hpack
  rcases Engine.trainTick_keeps h.coherent htick with ⟨hcoherent, hcompiled, htraining⟩
  have hfed := Engine.fed_of_trainTick h.coherent h.compiled htick
  have hwidth : Engine.size e = size := by
    rw [← h.width, Engine.size, hcompiled]
    rfl
  exact ⟨⟨hcoherent, hcompiled.symm ▸ h.compiled, hwidth, h.waiting⟩, htraining, rfl, rfl,
    _, _, hfed, padded_joinRows_map (fun s hs => (hsamples s hs).1) hcount _,
    padded_joinRows_map (fun s hs => (hsamples s hs).2) hcount _⟩

/-- What a flush that trains does: it takes the oldest samples that wait, and counts its tick. -/
structure Flushed (P : Value → Prop) (size : Nat) (t t' : Trainer α τ) : Prop where
  ready : t'.Ready P size
  batch : t'.engine.batch = t.engine.batch
  waiting : t'.waiting = t.waiting.drop t.engine.batch
  ticks : t'.loop.ticks = t.loop.ticks + 1
  packs : Packs size ⟨t.loop.pending, t'.engine.batch, t'.engine.fed⟩
    (t.waiting.take t.engine.batch)

/-- If a sample waits, the oldest ones are taken from the queue and trained on. -/
theorem outcome_flush {size : Nat} {t : Trainer α τ} (h : t.Ready P size)
    (hsome : t.loop.queue.isEmpty = false) :
    flush.outcome t = (trainOn (t.waiting.take t.engine.batch) >>= fun loss =>
      pure (some loss)).outcome (t.dequeue t.engine.batch) := by
  have htake : (t.loop.queue.take t.engine.batch).map Queued.sample =
      t.waiting.take t.engine.batch := List.map_take
  rw [flush, outcome_get_bind]
  simp only [hsome, Bool.false_eq_true, if_false, h.microBatchSize_eq, Number.toInt_whole,
    outcome_of_ok_bind, Int.toNat_natCast, htake]
  rfl

theorem flush_eq_ok {size : Nat} {t t' : Trainer α τ} {r : Option α} (h : t.Ready P size)
    (hrun : flush.outcome t = (.ok r, t')) :
    t.waiting = [] ∧ r = none ∧ t' = t ∨ (∃ loss, r = some loss) ∧ Flushed P size t t' := by
  cases hempty : t.loop.queue.isEmpty with
  | true =>
      apply Or.inl
      rw [flush, outcome_get_bind, hempty, if_pos rfl] at hrun
      cases hrun
      refine ⟨?_, rfl, rfl⟩
      rw [waiting, List.isEmpty_iff.mp hempty, List.map_nil]
  | false =>
      apply Or.inr
      rw [outcome_flush h hempty] at hrun
      rcases outcome_bind_eq_ok hrun with ⟨loss, t₁, htrain, hend⟩
      cases hend
      have hsamples : ∀ s ∈ t.waiting.take t.engine.batch,
          s.inputs.size = size ∧ s.targets.size = size :=
        fun s hs => h.waiting s (List.mem_of_mem_take hs)
      rcases trainOn_eq_ok (h.dequeue t.engine.batch) hsamples (List.length_take_le _ _) htrain with
        ⟨hready, htraining, hwaiting, hticks, hfed⟩
      have hbatch : t'.engine.batch = t.engine.batch :=
        congrArg (fun s => s.microBatchSize.count) htraining
      refine ⟨⟨loss, rfl⟩, hready, hbatch, hwaiting.trans (waiting_dequeue _ t), hticks, ?_⟩
      rw [hbatch]
      refine ⟨?_, hfed⟩
      rw [List.length_take, length_waiting, Nat.min_comm]

/-!
## Calls
-/

omit [Scalar α] in
theorem checkSample_eq_ok {size : Nat} {inputs targets : Operand α} {sample : Sample α}
    (h : checkSample size inputs targets = .ok sample) :
    inputs = .ok sample.inputs ∧ targets = .ok sample.targets ∧
      sample.inputs.size = size ∧ sample.targets.size = size := by
  rw [checkSample] at h
  rcases bind_eq_ok h with ⟨xs, hxs, h⟩
  rcases bind_eq_ok h with ⟨ts, hts, h⟩
  rcases guard_eq_ok h with ⟨hinputs, h⟩
  rcases guard_eq_ok h with ⟨htargets, h⟩
  cases h
  exact ⟨hxs, hts, Decidable.not_not.mp hinputs, Decidable.not_not.mp htargets⟩

variable [Moment τ]

/-- A trainer that has taken in what a call brings, and has not trained on it yet. -/
structure Takes (P : Value → Prop) (size : Nat) (call : Call α τ) (t t' : Trainer α τ) : Prop where
  ready : t'.Ready P size
  waiting : t'.waiting = t.waiting ++ call.samples
  ticks : t'.loop.ticks = t.loop.ticks
  batch : call.keeps t.engine.batch = true → t'.engine.batch = t.engine.batch

/-- What a call comes to once its samples wait: a flush, or nothing more. -/
def Comes (P : Value → Prop) (size : Nat) (call : Call α τ) (t t' : Trainer α τ) (r : Option α) :
    Prop :=
  r = none ∧ t' = t ∧ (call.samples = [] ∨ t.loop.pending < t.engine.batch) ∨
    (∃ loss, r = some loss) ∧ Flushed P size t t'

omit [Moment τ] in
/-- Whatever the batch size is, a sample that passes its check waits before it is looked at. -/
theorem outcome_addSample_of_checked {t : Trainer α τ} {inputs targets : Operand α}
    {sample : Sample α} (hcheck : checkSample t.engine.size inputs targets = .ok sample) :
    (addSample inputs targets).outcome t =
      (if t.engine.training.microBatchSize.atMost (.whole (t.enqueue sample).loop.pending) then
        flush else pure none : Attempt (Trainer α τ) (Option α)).outcome (t.enqueue sample) := by
  rw [addSample, outcome_get_bind, hcheck, outcome_of_ok_bind]
  rfl

omit [Moment τ] in
/-- A sample that fits waits, and a batch is flushed if that makes one full. -/
theorem outcome_addSample {size : Nat} {t : Trainer α τ} {inputs targets : Operand α}
    {sample : Sample α} (h : t.Ready P size)
    (hcheck : checkSample t.engine.size inputs targets = .ok sample) :
    (addSample inputs targets).outcome t =
      if t.engine.batch ≤ (t.enqueue sample).loop.pending then flush.outcome (t.enqueue sample)
      else (.ok none, t.enqueue sample) := by
  rw [outcome_addSample_of_checked hcheck, h.microBatchSize_eq, Number.atMost_whole_whole,
    outcome_ite]
  simp only [decide_eq_true_eq, Int.ofNat_le, outcome_pure]

omit [Moment τ] in
theorem addSample_eq_ok {size : Nat} {t t' : Trainer α τ} {inputs targets : Operand α}
    {r : Option α} (h : t.Ready P size)
    (hrun : (addSample inputs targets).outcome t = (.ok r, t')) :
    ∃ t₁, Takes P size (.addSample inputs targets) t t₁ ∧
      Comes P size (.addSample inputs targets) t₁ t' r := by
  have hsteps := hrun
  rw [addSample, outcome_get_bind] at hsteps
  rcases outcome_bind_eq_ok hsteps with ⟨sample, t₁, hchecked, -⟩
  rcases outcome_of_eq_ok hchecked with ⟨hcheck, -⟩
  rw [outcome_addSample h hcheck] at hrun
  rw [h.width] at hcheck
  rcases checkSample_eq_ok hcheck with ⟨rfl, rfl, hsample⟩
  have hready := h.enqueue hsample
  refine ⟨t.enqueue sample, ⟨hready, waiting_enqueue sample t, rfl, fun _ => rfl⟩, ?_⟩
  by_cases hfull : t.engine.batch ≤ (t.enqueue sample).loop.pending
  · rw [if_pos hfull] at hrun
    rcases flush_eq_ok hready hrun with ⟨hempty, -, -⟩ | hflushed
    · rw [waiting_enqueue] at hempty
      exact absurd hempty (List.append_ne_nil_of_right_ne_nil _ (List.cons_ne_nil _ _))
    · exact Or.inr hflushed
  · rw [if_neg hfull] at hrun
    cases hrun
    exact Or.inl ⟨rfl, rfl, Or.inr (Nat.lt_of_not_le hfull)⟩

omit [Moment τ] in
theorem comes_of_flush {size : Nat} {call : Call α τ} {t t' : Trainer α τ} {r : Option α}
    (h : t.Ready P size) (hcall : call.samples = []) (hrun : flush.outcome t = (.ok r, t')) :
    Comes P size call t t' r := by
  rcases flush_eq_ok h hrun with ⟨-, rfl, rfl⟩ | hflushed
  · exact Or.inl ⟨rfl, rfl, Or.inl hcall⟩
  · exact Or.inr hflushed

theorem poll_eq_ok {size : Nat} {t t' : Trainer α τ} {r : Option α} (h : t.Ready P size)
    (hrun : poll.outcome t = (.ok r, t')) :
    Comes P size .poll t t' r := by
  rw [poll, outcome_get_bind] at hrun
  cases hqueue : t.loop.queue with
  | nil =>
      simp only [hqueue] at hrun
      cases hrun
      exact Or.inl ⟨rfl, rfl, Or.inl rfl⟩
  | cons oldest rest =>
      simp only [hqueue] at hrun
      split at hrun
      · exact comes_of_flush h rfl hrun
      · cases hrun
        exact Or.inl ⟨rfl, rfl, Or.inl rfl⟩

omit [Moment τ] in
theorem setTraining_takes {size : Nat} {t : Trainer α τ} {settings : TrainingSettings}
    {e : Engine α} (hP : IdClass P) (h : t.Ready P size)
    (hrun : (Engine.setTraining settings).outcome t.engine = (.ok (), e)) :
    Takes P size (.setTraining settings) t { t with engine := e } := by
  rcases Engine.setTraining_eq_ok hP h.coherent h.compiled hrun with
    ⟨hcoherent, hcompiled, hsettings, hsize⟩
  refine ⟨⟨hcoherent, hcompiled, hsize.trans h.width, h.waiting⟩, ?_, rfl, ?_⟩
  · exact (List.append_nil _).symm
  · intro hkeeps
    show e.batch = t.engine.batch
    rw [Engine.batch, hsettings]
    exact beq_iff_eq.mp hkeeps

/-- A call that does not fail takes in what it brings, and then trains on a batch at most. -/
theorem perform_eq_ok {size : Nat} {call : Call α τ} {t t' : Trainer α τ} {r : Option α}
    (hP : IdClass P) (h : t.Ready P size) (hrun : call.perform.outcome t = (.ok r, t')) :
    ∃ t₁, Takes P size call t t₁ ∧ Comes P size call t₁ t' r := by
  have hself : ∀ call : Call α τ, call.samples = [] → Takes P size call t t := by
    intro call hcall
    refine ⟨h, ?_, rfl, fun _ => rfl⟩
    rw [hcall, List.append_nil]
  cases call with
  | addSample inputs targets => exact addSample_eq_ok h hrun
  | poll => exact ⟨t, hself _ rfl, poll_eq_ok h hrun⟩
  | flush => exact ⟨t, hself _ rfl, comes_of_flush h rfl hrun⟩
  | elapse d =>
      cases hrun
      refine ⟨{ t with now := Moment.add t.now d },
        ⟨⟨h.coherent, h.compiled, h.width, h.waiting⟩, ?_, rfl, fun _ => rfl⟩,
        Or.inl ⟨rfl, rfl, Or.inl rfl⟩⟩
      exact (List.append_nil _).symm
  | setTraining settings =>
      rcases outcome_bind_eq_ok hrun with ⟨_, t₁, honEngine, hend⟩
      rcases outcome_onPart_eq_ok honEngine with ⟨e, hstep, rfl⟩
      cases hend
      exact ⟨_, setTraining_takes hP h hstep, Or.inl ⟨rfl, rfl, Or.inl rfl⟩⟩

namespace Session

/-- What calls have come to: the samples that they brought were trained on, or still wait. -/
structure Sound (P : Value → Prop) (size : Nat) (brought : List (Sample α))
    (s : Session α τ) : Prop where
  ready : s.trainer.Ready P size
  trained : ∃ groups : List (List (Sample α)),
    groups.flatten ++ s.trainer.waiting = brought ∧ List.Forall₂ (Packs size) s.ticks groups
  counted : s.trainer.loop.ticks = s.ticks.length

/-- A call that was carried out has taken its samples in, and has flushed if it was recorded. -/
theorem step_eq_some {size : Nat} {s s' : Session α τ} {call : Call α τ} (hP : IdClass P)
    (h : s.trainer.Ready P size) (hstep : s.step call = some s') :
    ∃ t, Takes P size call s.trainer t ∧
      (s'.trainer = t ∧ s'.ticks = s.ticks ∧
          (call.samples = [] ∨ t.loop.pending < t.engine.batch) ∨
        Flushed P size t s'.trainer ∧ s'.ticks = s.ticks ++
          [⟨t.loop.pending, s'.trainer.engine.batch, s'.trainer.engine.fed⟩]) := by
  rw [step] at hstep
  cases hrun : call.perform.outcome s.trainer with
  | mk r t' =>
      rw [hrun] at hstep
      cases r with
      | error f => cases hstep
      | ok r =>
          rcases perform_eq_ok hP h hrun with
            ⟨t, htakes, ⟨rfl, rfl, hshort⟩ | ⟨⟨loss, rfl⟩, hflushed⟩⟩
          · cases hstep
            exact ⟨t', htakes, Or.inl ⟨rfl, rfl, hshort⟩⟩
          · cases hstep
            refine ⟨t, htakes, Or.inr ⟨hflushed, ?_⟩⟩
            rw [← t.length_waiting, htakes.waiting, List.length_append, length_waiting]

theorem Sound.step {size : Nat} {brought : List (Sample α)} {s s' : Session α τ}
    {call : Call α τ} (hP : IdClass P) (h : s.Sound P size brought)
    (hstep : s.step call = some s') :
    s'.Sound P size (brought ++ call.samples) := by
  rcases h.trained with ⟨groups, hgroups, hpacks⟩
  rcases step_eq_some hP h.ready hstep with
    ⟨t, htakes, ⟨htrainer, hticks, -⟩ | ⟨hflushed, hticks⟩⟩
  · rw [← htrainer] at htakes
    refine ⟨htakes.ready, ⟨groups, ?_, ?_⟩, ?_⟩
    · rw [htakes.waiting, ← List.append_assoc, hgroups]
    · rw [hticks]
      exact hpacks
    · rw [htakes.ticks, hticks]
      exact h.counted
  · refine ⟨hflushed.ready, ⟨groups ++ [t.waiting.take t.engine.batch], ?_, ?_⟩, ?_⟩
    · rw [List.flatten_append, List.flatten_singleton, hflushed.waiting, List.append_assoc,
        List.take_append_drop, htakes.waiting, ← List.append_assoc, hgroups]
    · rw [hticks]
      exact List.rel_append hpacks (List.Forall₂.cons hflushed.packs List.Forall₂.nil)
    · rw [hflushed.ticks, htakes.ticks, h.counted, hticks, List.length_append]
      rfl

/-- What holds before calls are carried out, one after the other, holds after them. -/
theorem Sound.run {size : Nat} {brought : List (Sample α)} {s s' : Session α τ}
    {calls : List (Call α τ)} (hP : IdClass P) (h : s.Sound P size brought)
    (hrun : s.run calls = some s') :
    s'.Sound P size (brought ++ calls.flatMap Call.samples) := by
  induction calls generalizing s brought with
  | nil =>
      cases hrun
      rw [List.flatMap_nil, List.append_nil]
      exact h
  | cons call rest ih =>
      rw [Session.run, List.foldlM_cons] at hrun
      rcases Option.bind_eq_some_iff.mp hrun with ⟨s₁, hstep, hrest⟩
      rw [List.flatMap_cons, ← List.append_assoc]
      exact ih (h.step hP hstep) hrest

/-- As many samples wait as leave room in a batch of some size. -/
structure Short (batch : Nat) (t : Trainer α τ) : Prop where
  kept : t.engine.batch = batch
  room : t.loop.pending < batch

theorem step_short {size batch : Nat} {s s' : Session α τ} {call : Call α τ} (hP : IdClass P)
    (h : s.trainer.Ready P size) (hshort : Short batch s.trainer)
    (hkeeps : call.keeps batch = true) (hstep : s.step call = some s') :
    Short batch s'.trainer := by
  rcases step_eq_some hP h hstep with ⟨t, htakes, hcomes⟩
  have hbatch : t.engine.batch = batch := by
    rw [← hshort.kept] at hkeeps
    rw [htakes.batch hkeeps, hshort.kept]
  have hpending : t.loop.pending = s.trainer.loop.pending + call.samples.length := by
    rw [← t.length_waiting, htakes.waiting, List.length_append, length_waiting]
  have hroom := hshort.room
  rcases hcomes with ⟨htrainer, -, hcall⟩ | ⟨hflushed, -⟩
  · rw [htrainer]
    refine ⟨hbatch, ?_⟩
    rcases hcall with hnone | hroom'
    · rw [hpending, hnone]
      exact hroom
    · rw [← hbatch]
      exact hroom'
  · refine ⟨hflushed.batch.trans hbatch, ?_⟩
    have hone := call.length_samples_le
    rw [← length_waiting, hflushed.waiting, List.length_drop, length_waiting, hpending, hbatch]
    omega

theorem run_short {size batch : Nat} {brought : List (Sample α)} {s s' : Session α τ}
    {calls : List (Call α τ)} (hP : IdClass P) (h : s.Sound P size brought)
    (hshort : Short batch s.trainer) (hkeeps : ∀ call ∈ calls, call.keeps batch = true)
    (hrun : s.run calls = some s') :
    Short batch s'.trainer := by
  induction calls generalizing s brought with
  | nil =>
      cases hrun
      exact hshort
  | cons call rest ih =>
      rw [Session.run, List.foldlM_cons] at hrun
      rcases Option.bind_eq_some_iff.mp hrun with ⟨s₁, hstep, hrest⟩
      have hshort₁ := step_short hP h.ready hshort (hkeeps call List.mem_cons_self) hstep
      exact ih (h.step hP hstep) hshort₁
        (fun d hd => hkeeps d (List.mem_cons_of_mem call hd)) hrest

end Session

/-!
## Whole runs
-/

omit [Moment τ] in
/-- A loop can be started on every coherent engine, whose rate it may set. -/
theorem outcome_start {e : Engine α} (h : e.Coherent P) (rate : Option (Except Fault Float)) :
    (TrainingLoop.start rate : Attempt (Engine α) (TrainingLoop α τ)).outcome e =
      (Engine.takeRate rate >>= fun _ => pure .fresh).outcome e := by
  rcases h.equipped.backend with ⟨b, hb, hequipped⟩
  rcases hequipped.dense with ⟨held, hheld⟩
  rw [TrainingLoop.start, outcome_get_bind, hb]
  dsimp only
  rw [Backend.trainable_of_dense hheld]
  rfl

omit [Moment τ] in
/-- A loop that was started has nothing to train on, and leaves its engine compiled. -/
theorem start_eq_ok {e e' : Engine α} {rate : Option (Except Fault Float)}
    {loop : TrainingLoop α τ} (h : e.Coherent P) (hcompiled : e.compiled.isSome = true)
    (hrun : (TrainingLoop.start rate).outcome e = (.ok loop, e')) :
    loop = .fresh ∧ e'.Coherent P ∧ e'.compiled = e.compiled ∧ e'.training = e.training := by
  rw [outcome_start h] at hrun
  rcases outcome_bind_eq_ok hrun with ⟨_, e₁, hrate, hend⟩
  have hrested := Engine.rests_takeRate rate e h hcompiled
  rw [after_of_outcome hrate] at hrested
  cases hend
  exact ⟨rfl, hrested.coherent, hrested.calm.compiled, hrested.calm.training⟩

/--
However samples, polls, flushes, pauses and other settings follow one another, as long as no
call fails the ticks train on all samples in the order of arrival, except for those that still
wait.  Unless the batch size is changed, fewer samples wait than a batch holds.
-/
theorem samples_trained_in_order {e e' : Engine α} {rate : Option (Except Fault Float)}
    {loop : TrainingLoop α τ} {now : τ} {calls : List (Call α τ)} {s : Session α τ}
    (h : e.Reachable Value.IsKey) (hcompiled : e.compiled.isSome = true)
    (hstart : (TrainingLoop.start rate).outcome e = (.ok loop, e'))
    (hrun : Session.run ⟨⟨e', now, loop⟩, []⟩ calls = some s) :
    (∃ groups : List (List (Sample α)),
        groups.flatten ++ s.trainer.waiting = calls.flatMap Call.samples ∧
        List.Forall₂ (Packs e.size) s.ticks groups) ∧
      s.trainer.loop.ticks = s.ticks.length ∧
      ((∀ call ∈ calls, call.keeps e.batch = true) → s.trainer.loop.pending < e.batch) := by
  have hP := Value.idClass_isKey
  have he := h.coherent hP
  rcases start_eq_ok he hcompiled hstart with ⟨rfl, he', hsame, htraining⟩
  have hready : Ready Value.IsKey e.size ⟨e', now, .fresh⟩ := by
    refine ⟨he', hsame.symm ▸ hcompiled, ?_, ?_⟩
    · show (e'.compiled.map Compiled.size).getD 0 = _
      rw [hsame]
      rfl
    · intro s hs
      cases hs
  have hsound : Session.Sound Value.IsKey e.size [] (⟨⟨e', now, .fresh⟩, []⟩ : Session α τ) :=
    ⟨hready, ⟨[], rfl, List.Forall₂.nil⟩, rfl⟩
  have hafter := hsound.run hP hrun
  refine ⟨hafter.trained, hafter.counted, ?_⟩
  intro hkeeps
  have hbatch : Engine.batch e' = e.batch := congrArg (fun s => s.microBatchSize.count) htraining
  have hroom : 0 < e.batch := hbatch ▸ hready.batch_pos
  exact (Session.run_short hP hsound ⟨hbatch, hroom⟩ hkeeps hrun).room

/-- Two samples a tick. -/
def inPairs : TrainingSettings :=
  { TrainingSettings.default with
    microBatchSize := .whole 2, microBatchSize_not_less := by decide }

/-- An engine that trains on two samples a tick. -/
def pairing : Engine Float32 := (Engine.setTraining inPairs).after (Engine.init.after Engine.blank)

/-- Calls that fill a batch, flush a part of another one, and leave a sample behind. -/
def exercise : List (Call Float32 Float) :=
  [.poll, .addSample (.ok #[1.0, 0.0]) (.ok #[0.0, 1.0]), .elapse 1.0,
    .setTraining { inPairs with idleFlushMs := .real 10.0 },
    .addSample (.ok #[0.0, 1.0]) (.ok #[1.0, 0.0]),
    .addSample (.ok #[1.0, 1.0]) (.ok #[1.0, 1.0]), .flush,
    .addSample (.ok #[0.0, 0.0]) (.ok #[0.0, 0.0])]

theorem samples_trained_in_order_exercise :
    ∃ s, Session.run ⟨⟨pairing, 0.0, .fresh⟩, []⟩ exercise = some s ∧
      s.ticks.length = 2 ∧ s.trainer.loop.ticks = 2 ∧ s.trainer.loop.pending < pairing.batch ∧
      ∃ groups : List (List (Sample Float32)),
        groups.flatten ++ s.trainer.waiting = exercise.flatMap Call.samples ∧
        List.Forall₂ (Packs pairing.size) s.ticks groups := by
  have hreach : pairing.Reachable Value.IsKey :=
    (Engine.Reachable.opened Engine.startable_blank (by decide +kernel)).step
      (.setTraining inPairs) trivial
  have hstart : (TrainingLoop.start none).outcome pairing =
      (.ok (TrainingLoop.fresh (τ := Float)), pairing) :=
    outcome_start (hreach.coherent Value.idClass_isKey) none
  have hlength : (Session.run ⟨⟨pairing, 0.0, .fresh⟩, []⟩ exercise).map
      (fun s => s.ticks.length) = some 2 := by decide +kernel
  rcases Option.map_eq_some_iff.mp hlength with ⟨s, hrun, hticks⟩
  rcases samples_trained_in_order hreach (by decide +kernel) hstart hrun with
    ⟨hgroups, hcounted, hpending⟩
  exact ⟨s, hrun, hticks, hcounted.trans hticks, hpending (by decide +kernel), hgroups⟩

end Trainer
end Plexus
