import Plexus.Proofs.Training.Flush
import Plexus.Training.Feed

/-!
# Runs with a limit

A run on a feed looks at its limit before each delivery.  One delivery can bring two training
ticks, one for the batch that its sample fills and one for what has waited too long when that tick
is over, so that the last delivery of a run may take it one tick beyond the limit.
-/

namespace Plexus

open Attempt

/-- A trainer when some time has passed. -/
def Trainer.later {α τ : Type} [Moment τ] (d : τ) (t : Trainer α τ) : Trainer α τ :=
  { t with now := Moment.add t.now d }

/-- What a feed hands out at one time, and how long that takes. -/
structure Delivery (α τ : Type) where
  elapsed : τ
  offer : Option (Offer α τ)

namespace Delivery

variable {α τ : Type}

open Trainer

/-- The calls that a trainer makes on a delivery. -/
def calls (d : Delivery α τ) : List (Call α τ) :=
  match d.offer with
  | none => [.elapse d.elapsed, .poll]
  | some offer =>
      [.elapse d.elapsed, .addSample offer.inputs offer.targets, .elapse offer.busy, .poll]

variable [Moment τ]

/-- A trainer when it has waited for a delivery. -/
def await (d : Delivery α τ) (t : Trainer α τ) : Trainer α τ := t.later d.elapsed

/--
Whether a trainer flushes twice on a delivery: more samples wait with the new one than a batch
holds, and of those that the batch leaves the oldest one has waited long enough by the time that
the trainer is no longer busy with the batch.
-/
def FlushesTwice (d : Delivery α τ) (t : Trainer α τ) : Prop :=
  ∃ offer sample oldest, d.offer = some offer ∧
    checkSample t.engine.size offer.inputs offer.targets = .ok sample ∧
    (((d.await t).enqueue sample).dequeue t.engine.batch).loop.queue.head? = some oldest ∧
    Moment.atLeast (Moment.sub ((d.await t).later offer.busy).now oldest.arrival)
      t.engine.training.idleFlushMs = true

end Delivery

/-- All that a feed hands out; it has nothing more to hand out when it stops its trainer. -/
def Feed.deliveries {α τ : Type} : Feed α τ → List (Delivery α τ)
  | .last elapsed => [⟨elapsed, none⟩]
  | .next elapsed offer rest => ⟨elapsed, offer⟩ :: rest.deliveries

namespace Trainer

variable {α τ : Type}

/-- A trainer that is asked to stop. -/
def stopped (t : Trainer α τ) : Trainer α τ := { t with loop := { t.loop with running := false } }

variable [Scalar α]

/-!
## The ticks of a call
-/

/-- The ticks that a call has run, by its result. -/
def ticksOf (r : Option α) : Nat := r.toList.length

omit [Scalar α] in
theorem ticksOf_le (r : Option α) : ticksOf r ≤ 1 := by
  cases r with
  | none => exact Nat.zero_le 1
  | some loss => exact Nat.le_refl 1

theorem flush_counts {t t' : Trainer α τ} {r : Option α} (h : flush.outcome t = (.ok r, t')) :
    t'.loop.ticks = t.loop.ticks + ticksOf r ∧ t'.loop.running = t.loop.running := by
  rcases flush_ticks h with ⟨-, rfl, rfl⟩ | ⟨-, -, loss, packed, rfl, hticked⟩
  · exact ⟨rfl, rfl⟩
  · rw [hticked.loop]
    exact ⟨rfl, rfl⟩

theorem addSample_flushes {inputs targets : Operand α} {t t' : Trainer α τ} {r : Option α}
    (h : (addSample inputs targets).outcome t = (.ok r, t')) :
    ∃ sample, checkSample t.engine.size inputs targets = .ok sample ∧
      (t.engine.training.microBatchSize.atMost (.whole (t.enqueue sample).loop.pending) = false ∧
          r = none ∧ t' = t.enqueue sample ∨
        flush.outcome (t.enqueue sample) = (.ok r, t')) := by
  rw [addSample, outcome_get_bind] at h
  rcases outcome_bind_eq_ok h with ⟨sample, t₁, hchecked, h⟩
  rcases outcome_of_eq_ok hchecked with ⟨hcheck, rfl⟩
  rcases outcome_bind_eq_ok h with ⟨_, t₂, henqueue, h⟩
  cases henqueue
  rw [outcome_get_bind] at h
  refine ⟨sample, hcheck, ?_⟩
  split at h
  · exact Or.inr h
  · next hroom =>
    cases h
    exact Or.inl ⟨Bool.not_eq_true _ ▸ hroom, rfl, rfl⟩

variable [Moment τ]

theorem poll_flushes {t t' : Trainer α τ} {r : Option α} (h : poll.outcome t = (.ok r, t')) :
    (∃ oldest, t.loop.queue.head? = some oldest ∧
        Moment.atLeast (Moment.sub t.now oldest.arrival) t.engine.training.idleFlushMs = true ∧
        flush.outcome t = (.ok r, t')) ∨
      (∀ oldest, t.loop.queue.head? = some oldest →
        Moment.atLeast (Moment.sub t.now oldest.arrival) t.engine.training.idleFlushMs = false) ∧
        r = none ∧ t' = t := by
  rw [poll, outcome_get_bind] at h
  cases hqueue : t.loop.queue with
  | nil =>
      simp only [hqueue] at h
      cases h
      refine Or.inr ⟨fun oldest hnone => ?_, rfl, rfl⟩
      cases hnone
  | cons oldest rest =>
      simp only [hqueue] at h
      split at h
      · next hlong => exact Or.inl ⟨oldest, rfl, hlong, h⟩
      · next hshort =>
        cases h
        refine Or.inr ⟨fun other hother => ?_, rfl, rfl⟩
        cases hother
        exact Bool.not_eq_true _ ▸ hshort

/-- A call that trains reports a loss, and only such a call counts a tick. -/
theorem Call.perform_counts {call : Call α τ} {t t' : Trainer α τ} {r : Option α}
    (h : call.perform.outcome t = (.ok r, t')) :
    t'.loop.ticks = t.loop.ticks + ticksOf r ∧ t'.loop.running = t.loop.running := by
  cases call with
  | addSample inputs targets =>
      rcases addSample_flushes h with ⟨sample, -, ⟨-, rfl, rfl⟩ | hflush⟩
      · exact ⟨rfl, rfl⟩
      · have hcounts := flush_counts hflush
        exact hcounts
  | poll =>
      rcases poll_flushes h with ⟨oldest, -, -, hflush⟩ | ⟨-, rfl, rfl⟩
      · exact flush_counts hflush
      · exact ⟨rfl, rfl⟩
  | flush => exact flush_counts h
  | elapse d =>
      cases h
      exact ⟨rfl, rfl⟩
  | setTraining settings =>
      rcases outcome_bind_eq_ok h with ⟨_, t₁, honEngine, h⟩
      rcases outcome_onPart_eq_ok honEngine with ⟨e, -, rfl⟩
      cases h
      exact ⟨rfl, rfl⟩

/-!
## The ticks of a session
-/

namespace Session

theorem step_performs {s s' : Session α τ} {call : Call α τ} (h : s.step call = some s') :
    ∃ r, call.perform.outcome s.trainer = (.ok r, s'.trainer) ∧
      s'.ticks.length = s.ticks.length + ticksOf r := by
  rw [step] at h
  split at h
  · cases h
  · next t hrun =>
    cases h
    exact ⟨none, hrun, rfl⟩
  · next loss t hrun =>
    cases h
    exact ⟨some loss, hrun, List.length_append⟩

theorem exists_step {s : Session α τ} (call : Call α τ) {r : Option α} {t : Trainer α τ}
    (h : call.perform.outcome s.trainer = (.ok r, t)) :
    ∃ s', s.step call = some s' ∧ s'.trainer = t := by
  rw [step, h]
  cases r with
  | none => exact ⟨_, rfl, rfl⟩
  | some loss => exact ⟨_, rfl, rfl⟩

theorem run_cons (s : Session α τ) (call : Call α τ) (calls : List (Call α τ)) :
    s.run (call :: calls) = (s.step call).bind fun s' => s'.run calls :=
  List.foldlM_cons

theorem run_append (s : Session α τ) (calls others : List (Call α τ)) :
    s.run (calls ++ others) = (s.run calls).bind fun s' => s'.run others :=
  List.foldlM_append

/-- A session whose trainer has run as many ticks as were recorded since some count. -/
def Counts (before : Nat) (s : Session α τ) : Prop :=
  s.trainer.loop.ticks = before + s.ticks.length ∧ s.trainer.loop.running = true

theorem Counts.step {before : Nat} {s s' : Session α τ} {call : Call α τ} (h : s.Counts before)
    (hstep : s.step call = some s') : s'.Counts before := by
  rcases step_performs hstep with ⟨r, hrun, hticks⟩
  rcases Call.perform_counts hrun with ⟨hcount, hrunning⟩
  refine ⟨?_, hrunning.trans h.2⟩
  rw [hcount, h.1, hticks, Nat.add_assoc]

theorem Counts.run {before : Nat} {s s' : Session α τ} {calls : List (Call α τ)}
    (h : s.Counts before) (hrun : s.run calls = some s') : s'.Counts before := by
  induction calls generalizing s with
  | nil =>
      cases hrun
      exact h
  | cons call rest ih =>
      rw [run_cons] at hrun
      rcases Option.bind_eq_some_iff.mp hrun with ⟨s₁, hstep, hrest⟩
      exact ih (h.step hstep) hrest

theorem ticks_le_of_run {s s' : Session α τ} {calls : List (Call α τ)}
    (hrun : s.run calls = some s') : s.ticks.length ≤ s'.ticks.length := by
  induction calls generalizing s with
  | nil =>
      cases hrun
      exact Nat.le_refl _
  | cons call rest ih =>
      rw [run_cons] at hrun
      rcases Option.bind_eq_some_iff.mp hrun with ⟨s₁, hstep, hrest⟩
      rcases step_performs hstep with ⟨r, -, hticks⟩
      exact Nat.le_trans (hticks ▸ Nat.le_add_right _ _) (ih hrest)

theorem step_elapse {s s' : Session α τ} {d : τ} (h : s.step (.elapse d) = some s') :
    s'.trainer = s.trainer.later d ∧ s'.ticks.length = s.ticks.length := by
  cases h
  exact ⟨rfl, rfl⟩

end Session

end Trainer

namespace Delivery

open Trainer

variable {α τ : Type} [Scalar α] [Moment τ]

omit [Scalar α] in
theorem flushesTwice_iff {d : Delivery α τ} {t : Trainer α τ} {offer : Offer α τ}
    {sample : Sample α} (hd : d.offer = some offer)
    (hcheck : checkSample t.engine.size offer.inputs offer.targets = .ok sample) :
    d.FlushesTwice t ↔ ∃ oldest,
      (((d.await t).enqueue sample).dequeue t.engine.batch).loop.queue.head? = some oldest ∧
      Moment.atLeast (Moment.sub ((d.await t).later offer.busy).now oldest.arrival)
        t.engine.training.idleFlushMs = true := by
  constructor
  · rintro ⟨offer', sample', oldest, hd', hcheck', holdest, hlong⟩
    rw [hd, Option.some.injEq] at hd'
    cases hd'
    rw [hcheck, Except.ok.injEq] at hcheck'
    cases hcheck'
    exact ⟨oldest, holdest, hlong⟩
  · rintro ⟨oldest, holdest, hlong⟩
    exact ⟨offer, sample, oldest, hd, hcheck, holdest, hlong⟩

/-- Where a sample leaves a batch short, there is nothing to flush but that batch. -/
theorem not_flushesTwice_of_room {d : Delivery α τ} {t t' : Trainer α τ} {offer : Offer α τ}
    {sample : Sample α} {r : Option α} (hd : d.offer = some offer)
    (hcheck : checkSample t.engine.size offer.inputs offer.targets = .ok sample)
    (hroom : t.engine.training.microBatchSize.atMost
      (.whole ((d.await t).enqueue sample).loop.pending) = false)
    (hpoll : poll.outcome (((d.await t).enqueue sample).later offer.busy) = (.ok r, t')) :
    ¬d.FlushesTwice t := by
  rw [flushesTwice_iff hd hcheck]
  rintro ⟨oldest, holdest, hlong⟩
  cases hwhole : t.engine.training.microBatchSize.whole? with
  | some rows =>
      -- A batch would take all samples that wait.
      rw [Number.atMost_of_whole? hwhole, decide_eq_false_iff_not] at hroom
      have hbatch := Engine.batch_of_whole? hwhole
      have hnone : (((d.await t).enqueue sample).dequeue t.engine.batch).loop.queue = [] := by
        apply List.drop_eq_nil_of_le
        have hlength : ((d.await t).enqueue sample).loop.pending =
            ((d.await t).enqueue sample).loop.queue.length := rfl
        omega
      rw [hnone] at holdest
      cases holdest
  | none =>
      -- Nothing can be flushed, but the oldest sample has waited too long.
      have hbatch : t.engine.batch = 0 := by
        rw [Engine.batch, Number.count, hwhole]
        rfl
      rw [hbatch] at holdest
      rcases poll_flushes hpoll with ⟨_, hhead, -, hflush⟩ | ⟨hshort, -, -⟩
      · rcases flush_ticks hflush with ⟨hempty, -, -⟩ | ⟨-, hbatched, -⟩
        · exact absurd hempty (waiting_enqueue_ne_nil _ _)
        · have hbatched : t.engine.training.microBatchSize.whole?.isSome = true := hbatched
          rw [hwhole] at hbatched
          cases hbatched
      · exact Bool.false_ne_true ((hshort oldest holdest).symm.trans hlong)

/-- After a batch that its sample has filled, a trainer flushes again if the oldest is overdue. -/
theorem poll_flushes_iff_of_flush {d : Delivery α τ} {t t₁ t' : Trainer α τ}
    {offer : Offer α τ} {sample : Sample α} {r₁ r₂ : Option α} (hd : d.offer = some offer)
    (hcheck : checkSample t.engine.size offer.inputs offer.targets = .ok sample)
    (hflush : flush.outcome ((d.await t).enqueue sample) = (.ok r₁, t₁))
    (hpoll : poll.outcome (t₁.later offer.busy) = (.ok r₂, t')) :
    ticksOf r₁ = 1 ∧ (ticksOf r₂ = 1 ↔ d.FlushesTwice t) := by
  rcases flush_ticks hflush with ⟨hempty, -, -⟩ | ⟨-, -, loss, packed, rfl, hticked⟩
  · exact absurd hempty (waiting_enqueue_ne_nil _ _)
  refine ⟨rfl, ?_⟩
  have hqueue : t₁.loop.queue =
      (((d.await t).enqueue sample).dequeue t.engine.batch).loop.queue := by
    rw [hticked.loop]
    rfl
  have hnow : (t₁.later offer.busy).now = ((d.await t).later offer.busy).now :=
    congrArg (Moment.add · offer.busy) hticked.now
  have htraining : t₁.engine.training = t.engine.training :=
    Engine.training_of_plan hticked.plan
  rw [flushesTwice_iff hd hcheck, ← hqueue, ← hnow, ← htraining]
  rcases poll_flushes hpoll with ⟨oldest, hhead, hlong, hagain⟩ | ⟨hshort, rfl, -⟩
  · rcases flush_ticks hagain with ⟨hempty, -, -⟩ | ⟨-, -, loss', packed', rfl, -⟩
    · rw [waiting_eq_nil_iff.mp hempty] at hhead
      cases hhead
    · exact ⟨fun _ => ⟨oldest, hhead, hlong⟩, fun _ => rfl⟩
  · constructor
    · intro hnone
      cases hnone
    · rintro ⟨oldest, hhead, hlong⟩
      exact absurd ((hshort oldest hhead).symm.trans hlong) Bool.false_ne_true

/-- A delivery brings two ticks at most. -/
theorem ticks_of_run {d : Delivery α τ} {s s' : Session α τ} (h : s.run d.calls = some s') :
    s'.ticks.length ≤ s.ticks.length + 2 ∧
      (s'.ticks.length = s.ticks.length + 2 ↔ d.FlushesTwice s.trainer) := by
  unfold calls at h
  cases hd : d.offer with
  | none =>
      simp only [hd, Session.run_cons] at h
      rcases Option.bind_eq_some_iff.mp h with ⟨s₁, helapse, h⟩
      rcases Option.bind_eq_some_iff.mp h with ⟨s₂, hpoll, h⟩
      cases h
      rcases Session.step_elapse helapse with ⟨-, hwaited⟩
      rcases Session.step_performs hpoll with ⟨r, -, hticks⟩
      have hone := ticksOf_le r
      refine ⟨by omega, fun htwo => by omega, ?_⟩
      rintro ⟨offer, _, _, hoffer, -⟩
      rw [hd] at hoffer
      cases hoffer
  | some offer =>
      simp only [hd, Session.run_cons] at h
      rcases Option.bind_eq_some_iff.mp h with ⟨s₁, helapse, h⟩
      rcases Option.bind_eq_some_iff.mp h with ⟨s₂, hadd, h⟩
      rcases Option.bind_eq_some_iff.mp h with ⟨s₃, hbusy, h⟩
      rcases Option.bind_eq_some_iff.mp h with ⟨s₄, hpoll, h⟩
      cases h
      rcases Session.step_elapse helapse with ⟨htrainer, hwaited⟩
      rcases Session.step_performs hadd with ⟨r₁, hadded, hticks₁⟩
      rcases Session.step_elapse hbusy with ⟨hlater, hdone⟩
      rcases Session.step_performs hpoll with ⟨r₂, hpolled, hticks₂⟩
      have hone := ticksOf_le r₂
      rw [htrainer] at hadded
      rcases addSample_flushes hadded with ⟨sample, hcheck, hadd⟩
      have hcheck :
          checkSample s.trainer.engine.size offer.inputs offer.targets = .ok sample := hcheck
      have hpolled : poll.outcome (s₂.trainer.later offer.busy) = (.ok r₂, s'.trainer) := by
        rw [← hlater]
        exact hpolled
      rcases hadd with ⟨hroom, rfl, hs₂⟩ | hflush
      · rw [hs₂] at hpolled
        have hnot := not_flushesTwice_of_room hd hcheck hroom hpolled
        have hzero : ticksOf (none : Option α) = 0 := rfl
        exact ⟨by omega, fun htwo => by omega, fun htwice => absurd htwice hnot⟩
      · rcases poll_flushes_iff_of_flush hd hcheck hflush hpolled with ⟨hfirst, hsecond⟩
        rw [← hsecond]
        omega

end Delivery

namespace Trainer

variable {α τ β γ : Type}

/-!
## A trainer that has been stopped
-/

/-- A step that does the same whether the trainer has been stopped or not. -/
def Heedless (step : Attempt (Trainer α τ) β) : Prop :=
  ∀ t, step.outcome t.stopped = ((step.outcome t).1, (step.after t).stopped)

theorem Heedless.bind {step : Attempt (Trainer α τ) β} {next : β → Attempt (Trainer α τ) γ}
    (h : Heedless step) (hnext : ∀ b, Heedless (next b)) : Heedless (step >>= next) := by
  intro t
  have hstep := h t
  rw [after] at hstep ⊢
  rw [outcome_bind, outcome_bind, hstep]
  cases step.outcome t with
  | mk r u =>
      cases r with
      | error f => rfl
      | ok b => exact hnext b u

theorem heedless_of (r : Except Fault β) : Heedless (of r : Attempt (Trainer α τ) β) :=
  fun _ => rfl

theorem heedless_pure (b : β) : Heedless (pure b : Attempt (Trainer α τ) β) := fun _ => rfl

theorem heedless_get_bind {next : Trainer α τ → Attempt (Trainer α τ) β}
    (hsame : ∀ t, next t.stopped = next t) (h : ∀ t, Heedless (next t)) :
    Heedless (get >>= next) := by
  intro t
  rw [after, outcome_get_bind, outcome_get_bind, hsame]
  exact h t t

theorem heedless_trainOn [Scalar α] (samples : List (Sample α)) :
    Heedless (trainOn samples : Attempt (Trainer α τ) α) := by
  refine heedless_get_bind (fun _ => rfl) fun t => (heedless_of _).bind fun _ => ?_
  refine (heedless_of _).bind fun packed => Heedless.bind (fun _ => rfl) fun loss => ?_
  exact Heedless.bind (fun _ => rfl) fun _ => heedless_pure loss

theorem heedless_flush [Scalar α] : Heedless (flush : Attempt (Trainer α τ) (Option α)) := by
  refine heedless_get_bind (fun _ => rfl) fun t => ?_
  split
  · exact heedless_pure none
  · refine (heedless_of _).bind fun rows => Heedless.bind (fun _ => rfl) fun _ => ?_
    exact (heedless_trainOn _).bind fun loss => heedless_pure (some loss)

theorem heedless_poll [Scalar α] [Moment τ] :
    Heedless (poll : Attempt (Trainer α τ) (Option α)) := by
  refine heedless_get_bind (fun _ => rfl) fun t => ?_
  split
  · exact heedless_pure none
  · split
    · exact heedless_flush
    · exact heedless_pure none

/-!
## Consuming a feed
-/

variable [Scalar α] [Moment τ]

/-- The deliveries that a run with a limit takes of those that are due, and what they come to. -/
structure Consumed (limit : Nat) (due : List (Delivery α τ)) (s : Session α τ)
    (taken : List (Delivery α τ)) (s' : Session α τ) : Prop where
  leading : taken <+: due
  run : s.run (taken.flatMap Delivery.calls) = some s'
  below : ∀ done d rest s₁, taken = done ++ d :: rest →
    s.run (done.flatMap Delivery.calls) = some s₁ → s₁.ticks.length < limit
  ended : s'.ticks.length < limit → taken = due

omit [Scalar α] [Moment τ] in
theorem goesOn_iff {before limit : Nat} {s : Session α τ} (h : s.Counts before) :
    (s.trainer.loop.running &&
        !limitReached (some (.whole limit)) before s.trainer.loop.ticks) = true ↔
      s.ticks.length < limit := by
  rw [h.2, Bool.true_and, Bool.not_eq_true', limitReached, Number.atMost_whole_whole,
    decide_eq_false_iff_not, h.1]
  omega

theorem exists_run_calls {d : Delivery α τ} {s : Session α τ} {t t' : Trainer α τ} {r : Option α}
    (haccept : (accept d.offer).outcome (d.await s.trainer) = (.ok (), t))
    (hpoll : poll.outcome t = (.ok r, t')) :
    ∃ s', s.run d.calls = some s' ∧ s'.trainer = t' := by
  have helapse : (Call.elapse d.elapsed : Call α τ).perform.outcome s.trainer =
      (.ok none, d.await s.trainer) := rfl
  rcases Session.exists_step (.elapse d.elapsed) helapse with ⟨s₁, hs₁, htrainer⟩
  unfold Delivery.calls
  cases hd : d.offer with
  | none =>
      rw [hd] at haccept
      cases haccept
      rw [← htrainer] at hpoll
      rcases Session.exists_step .poll hpoll with ⟨s₂, hs₂, hend⟩
      refine ⟨s₂, ?_, hend⟩
      simp only [Session.run_cons, hs₁, Option.bind_some, hs₂]
      rfl
  | some offer =>
      rw [hd] at haccept
      rcases outcome_bind_eq_ok haccept with ⟨r₁, t₁, hadd, hend⟩
      rw [← htrainer] at hadd
      rcases Session.exists_step (.addSample offer.inputs offer.targets) hadd with
        ⟨s₂, hs₂, htrainer₂⟩
      rw [← htrainer₂] at hend
      have hbusy : (Call.elapse offer.busy : Call α τ).perform.outcome s₂.trainer =
          (.ok none, s₂.trainer.later offer.busy) := rfl
      rcases Session.exists_step (.elapse offer.busy) hbusy with ⟨s₃, hs₃, htrainer₃⟩
      cases hend
      have hpoll : poll.outcome s₃.trainer = (.ok r, t') := by
        rw [htrainer₃]
        exact hpoll
      rcases Session.exists_step .poll hpoll with ⟨s₄, hs₄, hend⟩
      refine ⟨s₄, ?_, hend⟩
      simp only [Session.run_cons, hs₁, Option.bind_some, hs₂, hs₃, hs₄]
      rfl

theorem consumed_nil {limit : Nat} {due : List (Delivery α τ)} {s : Session α τ}
    (h : s.ticks.length < limit → due = []) : Consumed limit due s [] s where
  leading := List.nil_prefix
  run := rfl
  below _ _ _ _ htaken _ :=
    absurd htaken.symm (List.append_ne_nil_of_right_ne_nil _ (List.cons_ne_nil _ _))
  ended hbelow := (h hbelow).symm

theorem Consumed.cons {limit : Nat} {d : Delivery α τ} {due taken : List (Delivery α τ)}
    {s s₁ s' : Session α τ} (hbelow : s.ticks.length < limit) (hd : s.run d.calls = some s₁)
    (h : Consumed limit due s₁ taken s') :
    Consumed limit (d :: due) s (d :: taken) s' where
  leading := (List.prefix_cons_inj d).mpr h.leading
  run := by
    rw [List.flatMap_cons, Session.run_append, hd, Option.bind_some]
    exact h.run
  below := by
    intro done d' others s₂ htaken hrun
    cases done with
    | nil =>
        cases hrun
        exact hbelow
    | cons first done =>
        rw [List.cons_append, List.cons.injEq] at htaken
        rcases htaken with ⟨rfl, htaken⟩
        rw [List.flatMap_cons, Session.run_append, hd, Option.bind_some] at hrun
        exact h.below done d' others s₂ htaken hrun
  ended hshort := by rw [h.ended hshort]

/-- A trainer that is stopped before it polls polls as it would have. -/
theorem exists_poll_of_stopped {t t' : Trainer α τ} {r : Option α}
    (h : poll.outcome t.stopped = (.ok r, t')) :
    ∃ u, poll.outcome t = (.ok r, u) ∧ t' = u.stopped := by
  have hboth := (heedless_poll t).symm.trans h
  rw [Prod.mk.injEq] at hboth
  exact ⟨_, Prod.ext hboth.1 rfl, hboth.2.symm⟩

theorem consume_eq_ok {before limit : Nat} {feed : Feed α τ} {s : Session α τ}
    {t' : Trainer α τ} (hs : s.Counts before)
    (h : (consume (some (.whole limit)) before feed).outcome s.trainer = (.ok (), t')) :
    ∃ taken s', Consumed limit feed.deliveries s taken s' ∧ t'.stopped = s'.trainer.stopped := by
  -- The ticks that were recorded are those since the start, so the session knows where to end.
  induction feed generalizing s with
  | last elapsed =>
      rw [consume, outcome_get_bind] at h
      dsimp only at h
      split at h
      · next hgoes =>
        rcases outcome_bind_eq_ok h with ⟨_, t₁, helapse, h⟩
        cases helapse
        rcases outcome_bind_eq_ok h with ⟨_, t₂, hstop, h⟩
        cases hstop
        rcases outcome_bind_eq_ok h with ⟨r, t₃, hpoll, h⟩
        cases h
        -- The last delivery stops the trainer before its poll, which a session does not do.
        rcases exists_poll_of_stopped hpoll with ⟨u, hlast, rfl⟩
        rcases exists_run_calls (d := ⟨elapsed, none⟩) rfl hlast with ⟨s', hrun, rfl⟩
        exact ⟨_, s', (consumed_nil fun _ => rfl).cons ((goesOn_iff hs).mp hgoes) hrun, rfl⟩
      · next hends =>
        cases h
        rw [goesOn_iff hs] at hends
        exact ⟨[], s, consumed_nil fun hbelow => absurd hbelow hends, rfl⟩
  | next elapsed offer rest ih =>
      rw [consume, outcome_get_bind] at h
      dsimp only at h
      split at h
      · next hgoes =>
        rcases outcome_bind_eq_ok h with ⟨_, t₁, helapse, h⟩
        cases helapse
        rcases outcome_bind_eq_ok h with ⟨_, t₂, haccept, h⟩
        rcases outcome_bind_eq_ok h with ⟨r, t₃, hpoll, h⟩
        rcases exists_run_calls (d := ⟨elapsed, offer⟩) haccept hpoll with ⟨s₁, hrun, rfl⟩
        rcases ih (hs.run hrun) h with ⟨taken, s', hconsumed, hend⟩
        exact ⟨_, s', hconsumed.cons ((goesOn_iff hs).mp hgoes) hrun, hend⟩
      · next hends =>
        cases h
        rw [goesOn_iff hs] at hends
        exact ⟨[], s, consumed_nil fun hbelow => absurd hbelow hends, rfl⟩

/-- A trainer that a run starts. -/
def started (t : Trainer α τ) : Trainer α τ := { t with loop := { t.loop with running := true } }

/-- A run that returns has taken deliveries up to its limit, and counts the ticks they brought. -/
theorem run_eq_ok {limit n : Nat} {feed : Feed α τ} {t t' : Trainer α τ}
    (h : (run (some (.whole limit)) feed).outcome t = (.ok n, t')) :
    ∃ taken s, Consumed limit feed.deliveries ⟨t.started, []⟩ taken s ∧
      s.ticks.length = n ∧ t' = s.trainer.stopped := by
  rw [run, outcome_get_bind] at h
  rcases outcome_bind_eq_ok h with ⟨_, t₁, hstart, h⟩
  cases hstart
  rcases outcome_bind_eq_ok h with ⟨_, t₂, hconsume, h⟩
  rcases outcome_bind_eq_ok h with ⟨_, t₃, hstop, h⟩
  cases hstop
  rw [outcome_get_bind] at h
  have hcounts : (⟨t.started, []⟩ : Session α τ).Counts t.loop.ticks := ⟨rfl, rfl⟩
  rcases consume_eq_ok hcounts (outcome_onFault_eq_ok hconsume) with ⟨taken, s, hconsumed, hend⟩
  have hticks : t₂.loop.ticks = s.trainer.loop.ticks := congrArg (fun t => t.loop.ticks) hend
  cases h
  refine ⟨taken, s, hconsumed, ?_, hend⟩
  rw [hticks, (hcounts.run hconsumed.run).1]
  omega

/-!
## Runs and their limits
-/

/-- Whether, one tick below the limit, a run takes a delivery on which its trainer flushes twice. -/
def Overrun (limit : Nat) (s : Session α τ) (taken : List (Delivery α τ)) : Prop :=
  ∃ done d rest s₁, taken = done ++ d :: rest ∧
    s.run (done.flatMap Delivery.calls) = some s₁ ∧ s₁.ticks.length + 1 = limit ∧
    d.FlushesTwice s₁.trainer

theorem Consumed.exists_last {limit : Nat} {due done rest : List (Delivery α τ)}
    {d : Delivery α τ} {s s' : Session α τ} (h : Consumed limit due s (done ++ d :: rest) s') :
    ∃ s₁ s₂, s.run (done.flatMap Delivery.calls) = some s₁ ∧ s₁.ticks.length < limit ∧
      s₁.run d.calls = some s₂ ∧ s₂.run (rest.flatMap Delivery.calls) = some s' := by
  have hrun := h.run
  rw [List.flatMap_append, List.flatMap_cons, Session.run_append] at hrun
  rcases Option.bind_eq_some_iff.mp hrun with ⟨s₁, hdone, hrun⟩
  rw [Session.run_append] at hrun
  rcases Option.bind_eq_some_iff.mp hrun with ⟨s₂, hd, hrest⟩
  exact ⟨s₁, s₂, hdone, h.below done d rest s₁ rfl hdone, hd, hrest⟩

/-- Only the last delivery can take a run beyond its limit, and only by one tick. -/
theorem Consumed.ticks_le {limit : Nat} {due taken : List (Delivery α τ)} {s s' : Session α τ}
    (h : Consumed limit due s taken s') (hs : s.ticks.length ≤ limit) :
    s'.ticks.length ≤ limit + 1 ∧ (¬Overrun limit s taken → s'.ticks.length ≤ limit) := by
  rcases List.eq_nil_or_concat taken with rfl | ⟨done, d, rfl⟩
  · have hrun := h.run
    cases hrun
    exact ⟨Nat.le_succ_of_le hs, fun _ => hs⟩
  · rw [List.concat_eq_append] at h ⊢
    rcases h.exists_last with ⟨s₁, s₂, hdone, hbelow, hd, hend⟩
    cases hend
    rcases d.ticks_of_run hd with ⟨hatMost, htwice⟩
    refine ⟨by omega, fun hnone => ?_⟩
    by_contra hbeyond
    exact hnone ⟨done, d, [], s₁, rfl, hdone, by omega, htwice.mp (by omega)⟩

theorem Consumed.beyond_of_overrun {limit : Nat} {due taken : List (Delivery α τ)}
    {s s' : Session α τ} (h : Consumed limit due s taken s') (hover : Overrun limit s taken) :
    limit < s'.ticks.length := by
  rcases hover with ⟨done, d, rest, s₁, rfl, hdone, hshort, hflushes⟩
  rcases h.exists_last with ⟨s₁', s₂, hdone', -, hd, hrest⟩
  rw [hdone, Option.some.injEq] at hdone'
  cases hdone'
  have htwo := (d.ticks_of_run hd).2.mpr hflushes
  have hmore := Session.ticks_le_of_run hrest
  omega

omit [Moment τ] in
theorem flush_keeps_room {t t' : Trainer α τ} {r : Option α}
    (h : flush.outcome t = (.ok r, t')) (hpos : 0 < t.engine.batch)
    (hfull : t.loop.pending ≤ t.engine.batch) : t'.loop.pending < t'.engine.batch := by
  rcases flush_ticks h with ⟨hempty, -, rfl⟩ | ⟨-, -, loss, packed, -, hticked⟩
  · rw [← length_waiting, hempty]
    exact hpos
  · have hbatch : t'.engine.batch = t.engine.batch := Engine.batch_of_plan hticked.plan
    have hqueue : t'.loop.pending = (t.loop.queue.drop t.engine.batch).length := by
      rw [hticked.loop]
      rfl
    have hpending : t.loop.pending = t.loop.queue.length := rfl
    rw [hqueue, hbatch, List.length_drop]
    omega

/-- As long as the settings stay, a trainer with room in a batch keeps it. -/
theorem Call.keeps_room {call : Call α τ} {t t' : Trainer α τ} {r : Option α}
    (hcall : ∀ settings, call ≠ .setTraining settings)
    (h : call.perform.outcome t = (.ok r, t')) (hroom : t.loop.pending < t.engine.batch) :
    t'.loop.pending < t'.engine.batch := by
  have hpos : 0 < t.engine.batch := Nat.lt_of_le_of_lt (Nat.zero_le _) hroom
  cases call with
  | addSample inputs targets =>
      rcases addSample_flushes h with ⟨sample, -, hadd⟩
      have hpending := pending_enqueue sample t
      rcases hadd with ⟨hshort, -, rfl⟩ | hrun
      · have hwhole : t.engine.training.microBatchSize.whole?.isSome = true := by
          by_contra hnone
          rw [Bool.not_eq_true, Option.isSome_eq_false_iff, Option.isNone_iff_eq_none] at hnone
          rw [Engine.batch, Number.count, hnone] at hpos
          exact absurd hpos (by decide)
        rcases Option.isSome_iff_exists.mp hwhole with ⟨rows, hrows⟩
        have hbatch := Engine.batch_of_whole? hrows
        rw [Number.atMost_of_whole? hrows, decide_eq_false_iff_not] at hshort
        show (t.enqueue sample).loop.pending < t.engine.batch
        omega
      · exact flush_keeps_room hrun hpos (hpending ▸ hroom)
  | poll =>
      rcases poll_flushes h with ⟨oldest, -, -, hrun⟩ | ⟨-, -, rfl⟩
      · exact flush_keeps_room hrun hpos (Nat.le_of_lt hroom)
      · exact hroom
  | flush => exact flush_keeps_room h hpos (Nat.le_of_lt hroom)
  | elapse d =>
      cases h
      exact hroom
  | setTraining settings => exact absurd rfl (hcall settings)

theorem Session.run_keeps_room {s s' : Session α τ} {calls : List (Call α τ)}
    (hcalls : ∀ call ∈ calls, ∀ settings, call ≠ .setTraining settings)
    (h : s.run calls = some s') (hroom : s.trainer.loop.pending < s.trainer.engine.batch) :
    s'.trainer.loop.pending < s'.trainer.engine.batch := by
  induction calls generalizing s with
  | nil =>
      cases h
      exact hroom
  | cons call rest ih =>
      rw [run_cons] at h
      rcases Option.bind_eq_some_iff.mp h with ⟨s₁, hstep, hrest⟩
      rcases step_performs hstep with ⟨r, hrun, -⟩
      exact ih (fun d hd => hcalls d (List.mem_cons_of_mem call hd)) hrest
        (Call.keeps_room (hcalls call List.mem_cons_self) hrun hroom)

theorem not_overrun_of_room {limit : Nat} {s : Session α τ} {taken : List (Delivery α τ)}
    (hroom : s.trainer.loop.pending < s.trainer.engine.batch) : ¬Overrun limit s taken := by
  rintro ⟨done, d, rest, s₁, -, hdone, -, _, sample, oldest, -, -, holdest, -⟩
  have hcalls : ∀ call ∈ done.flatMap Delivery.calls, ∀ settings : TrainingSettings,
      call ≠ .setTraining settings := by
    intro call hcall settings
    rcases List.mem_flatMap.mp hcall with ⟨d', -, hd'⟩
    unfold Delivery.calls at hd'
    split at hd' <;> simp only [List.mem_cons, List.not_mem_nil, or_false] at hd'
    · rcases hd' with rfl | rfl <;> exact nofun
    · rcases hd' with rfl | rfl | rfl | rfl <;> exact nofun
  have hroom₁ := Session.run_keeps_room hcalls hdone hroom
  have hnone : (((d.await s₁.trainer).enqueue sample).dequeue
      s₁.trainer.engine.batch).loop.queue = [] := by
    apply List.drop_eq_nil_of_le
    rw [enqueue, List.length_append]
    exact hroom₁
  rw [hnone] at holdest
  cases holdest

/-- A trainer for which fewer samples wait than a batch holds keeps to its limit. -/
theorem run_within_limit_of_room {limit n : Nat} {feed : Feed α τ} {t t' : Trainer α τ}
    (h : (run (some (.whole limit)) feed).outcome t = (.ok n, t'))
    (hroom : t.loop.pending < t.engine.batch) : n ≤ limit := by
  rcases run_eq_ok h with ⟨taken, s, hconsumed, rfl, rfl⟩
  exact (hconsumed.ticks_le (Nat.zero_le limit)).2 (not_overrun_of_room hroom)

/--
A run with a limit that returns counts its ticks, and has taken one more than its limit at most.
It takes all that its feed hands out, or as much as brings it to the limit.  It keeps to the limit
unless, one tick below it, a delivery makes its trainer flush twice.
-/
theorem run_within_limit_iff {limit n : Nat} {feed : Feed α τ} {t t' : Trainer α τ}
    (h : (run (some (.whole limit)) feed).outcome t = (.ok n, t')) :
    t'.loop.running = false ∧ n ≤ limit + 1 ∧
      ∃ taken s, taken <+: feed.deliveries ∧ (n < limit → taken = feed.deliveries) ∧
        Session.run ⟨t.started, []⟩ (taken.flatMap Delivery.calls) = some s ∧
        t' = s.trainer.stopped ∧ s.ticks.length = n ∧
        (n ≤ limit ↔ ¬Overrun limit ⟨t.started, []⟩ taken) := by
  rcases run_eq_ok h with ⟨taken, s, hconsumed, rfl, rfl⟩
  rcases hconsumed.ticks_le (Nat.zero_le limit) with ⟨hatMost, hwithin⟩
  refine ⟨rfl, hatMost, taken, s, hconsumed.leading, hconsumed.ended, hconsumed.run, rfl, rfl, ?_,
    hwithin⟩
  intro hle hover
  exact absurd hle (Nat.not_le_of_lt (hconsumed.beyond_of_overrun hover))

/-- One sample a tick, and none may wait for some milliseconds. -/
def impatient (ms : Int) : TrainingSettings :=
  { TrainingSettings.default with idleFlushMs := .whole ms }

/-- A trainer for which a sample waits that was short of a batch before the settings changed. -/
def behind (settings : TrainingSettings) : Trainer Float32 Float :=
  (onEngine (Engine.setTraining settings)).after <|
    (addSample (.ok #[1.0, 0.0]) (.ok #[0.0, 1.0])).after ⟨pairing, 0.0, .fresh⟩

/-- A feed that hands out one sample after the other. -/
def steady : Feed Float32 Float :=
  .ofList 0.0 (List.replicate 2 (some (.ok #[1.0, 0.0], .ok #[0.0, 1.0])))

/-- A feed that hands out a sample at once, which keeps its trainer busy for a sixteenth second. -/
def taxing : Feed Float32 Float :=
  .next 0.0 (some ⟨.ok #[1.0, 0.0], .ok #[0.0, 1.0], 0.0625⟩) (.last 0.0)

theorem exists_run_of_count {t : Trainer Float32 Float} {feed : Feed Float32 Float}
    {limit : Option Number} {n : Nat} (h : ((run limit feed).outcome t).1.toOption = some n) :
    ∃ t', (run limit feed).outcome t = (.ok n, t') := by
  cases hrun : (run limit feed).outcome t with
  | mk r t' =>
      rw [hrun] at h
      cases r with
      | error f => cases h
      | ok m =>
          cases h
          exact ⟨t', rfl⟩

/-- The first delivery brings two ticks to a run that may take one. -/
theorem run_beyond_limit_behind :
    ¬∀ (feed : Feed Float32 Float) (limit n : Nat) (t' : Trainer Float32 Float),
      (run (some (.whole limit)) feed).outcome (behind (impatient 0)) = (.ok n, t') →
        n ≤ limit := by
  intro hwithin
  have hcount : ((run (some (.whole (1 : Nat))) steady).outcome
      (behind (impatient 0))).1.toOption = some 2 := by
    decide +kernel
  rcases exists_run_of_count hcount with ⟨t', hrun⟩
  exact absurd (hwithin steady 1 2 t' hrun) (by decide)

/-- A sample that comes without delay is overdue when the tick before it has taken long enough. -/
theorem run_within_limit_iff_behind :
    ∃ t', (run (some (.whole (1 : Nat))) taxing).outcome (behind (impatient 50)) = (.ok 2, t') ∧
      t'.loop.running = false ∧
      ∃ taken s, taken <+: taxing.deliveries ∧
        Session.run ⟨(behind (impatient 50)).started, []⟩ (taken.flatMap Delivery.calls) =
          some s ∧
        t' = s.trainer.stopped ∧ s.ticks.length = 2 ∧
        Overrun 1 ⟨(behind (impatient 50)).started, []⟩ taken := by
  have hcount : ((run (some (.whole (1 : Nat))) taxing).outcome
      (behind (impatient 50))).1.toOption = some 2 := by
    decide +kernel
  rcases exists_run_of_count hcount with ⟨t', hrun⟩
  rcases run_within_limit_iff hrun with
    ⟨hstopped, -, taken, s, htaken, -, hs, hend, hticks, hwithin⟩
  refine ⟨t', hrun, hstopped, taken, s, htaken, hs, hend, hticks, ?_⟩
  by_contra hkept
  exact absurd (hwithin.mpr hkept) (by decide)

end Trainer
end Plexus
