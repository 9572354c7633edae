import Mathlib.Algebra.Order.Field.Rat
import Mathlib.Order.WithBot
import Plexus.Proofs.Training.Limit

/-!
# How long samples wait

A poll looks at the first sample of the queue only.  The samples of a queue stand in the order
of their arrival, whichever batches were taken out of it and at whatever sizes, so that no other
sample has waited longer than the first one.  This is said of clocks that count exactly.
-/

namespace Plexus

open Attempt

/-!
## Exact clocks
-/

/-- A quantity, which may be infinite. -/
abbrev Amount (K : Type) : Type := WithBot (WithTop K)

/-- A finite quantity. -/
abbrev Amount.of {K : Type} (x : K) : Amount K := (x : WithTop K)

/-- What a number amounts to; what is not a number amounts to nothing. -/
def Number.amount? (K : Type) [DivisionRing K] : Number → Option (Amount K)
  | .flag b => some (.of (ofFlag b))
  | .whole n => some (.of n)
  | .real x =>
      match Decimal.Binary.ofFloat x with
      | .nan => none
      | .infinite negative => some (if negative then ⊥ else (⊤ : WithTop K))
      | .finite negative mantissa exponent =>
          let size : K := mantissa * 2 ^ exponent
          some (.of (if negative then -size else size))

/-- Moments that are told apart and compared without rounding. -/
class ExactMoment (τ : Type) [Moment τ] [Field τ] [LinearOrder τ] : Prop where
  add_eq : ∀ t d : τ, Moment.add t d = t + d
  sub_eq : ∀ t u : τ, Moment.sub t u = t - u
  atLeast_iff : ∀ (d : τ) (limit : Number), Moment.atLeast d limit = true ↔
    ∃ ms, limit.amount? τ = some ms ∧ ms ≤ .of (d * 1000)

/-- Rational numbers of seconds. -/
instance : Moment Rat where
  start := 0
  add := (· + ·)
  sub := (· - ·)
  atLeast d limit := ((limit.amount? Rat).map fun ms => decide (ms ≤ .of (d * 1000))).getD false

instance : ExactMoment Rat where
  add_eq _ _ := rfl
  sub_eq _ _ := rfl
  atLeast_iff d limit := by
    show ((limit.amount? Rat).map fun ms => decide (ms ≤ .of (d * 1000))).getD false = true ↔ _
    cases limit.amount? Rat with
    | none => simp
    | some ms => simp

namespace Trainer

variable {α τ : Type}

/-!
## Arrivals
-/

/-- How many milliseconds a sample has waited. -/
def waited [Field τ] (t : Trainer α τ) (q : Queued α τ) : τ := (t.now - q.arrival) * 1000

/-- A trainer whose samples stand in the order of their arrival. -/
structure Ordered [LE τ] (t : Trainer α τ) : Prop where
  arrivals : (t.loop.queue.map Queued.arrival).Pairwise (· ≤ ·)
  arrived : ∀ q ∈ t.loop.queue, q.arrival ≤ t.now

/-- A trainer that may have given up the first samples of its queue, and has spent no time on it. -/
structure Sheds (t t' : Trainer α τ) : Prop where
  queue : t'.loop.queue <:+ t.loop.queue
  now : t'.now = t.now

instance : IsPreorder (Trainer α τ) Sheds where
  refl _ := ⟨List.suffix_rfl, rfl⟩
  trans _ _ _ h h' := ⟨h'.queue.trans h.queue, h'.now.trans h.now⟩

namespace Call

/-- Whether a call lets time go forward, if it lets it pass at all. -/
def GoesForward [Zero τ] [LE τ] : Call α τ → Prop
  | .elapse d => 0 ≤ d
  | _ => True

instance [Zero τ] [LE τ] [DecidableLE τ] (call : Call α τ) : Decidable call.GoesForward :=
  match call with
  | .elapse d => inferInstanceAs (Decidable (0 ≤ d))
  | .addSample .. | .poll | .flush | .setTraining _ => isTrue trivial

/-- What the time is after a call. -/
def timeAfter [Moment τ] (t : Trainer α τ) : Call α τ → τ
  | .elapse d => Moment.add t.now d
  | _ => t.now

/-- The samples that a trainer takes in from a call, with the time that it is then. -/
def admitted (t : Trainer α τ) (call : Call α τ) : List (Queued α τ) :=
  (call.accepted t).map fun sample => ⟨sample, t.now⟩

end Call

/--
The samples that a trainer takes in from calls, one after the other, whether they fail or not,
each with the time that it is then.
-/
def admittedFrom [Scalar α] [Moment τ] (t : Trainer α τ) : List (Call α τ) → List (Queued α τ)
  | [] => []
  | call :: rest => call.admitted t ++ (call.perform.after t).admittedFrom rest

/-- A trainer after calls, one after the other, whether they fail or not. -/
def afterCalls [Scalar α] [Moment τ] (t : Trainer α τ) (calls : List (Call α τ)) : Trainer α τ :=
  calls.foldl (fun t call => call.perform.after t) t

/-- The samples that wait, and what the time is. -/
def line (t : Trainer α τ) : List (Queued α τ) × τ := (t.loop.queue, t.now)

theorem sheds_of_fixes_line {t t' : Trainer α τ} (h : Fixes line t t') : Sheds t t' := by
  have hline : t'.line = t.line := h
  rw [line, line, Prod.mk.injEq] at hline
  exact ⟨hline.1 ▸ List.suffix_rfl, hline.2⟩

/-!
## What a call does to the queue
-/

section Queue

variable [Scalar α]

theorem line_trainOn (samples : List (Sample α)) :
    Respects (Fixes line) (trainOn samples : Attempt (Trainer α τ) α) := by
  refine respects_get_bind fun t => ?_
  refine (respects_of (R := Fixes line) _).bind (fun _ => ?_) t
  refine (respects_of _).bind fun packed => ?_
  refine Respects.bind (R := Fixes line) (fun _ => rfl) fun loss => ?_
  exact Respects.bind (R := Fixes line) (respects_modify fun _ => rfl) fun _ => respects_pure loss

/-- Whether its tick fails or not, a flush takes a batch from the queue. -/
theorem line_after_flush {t : Trainer α τ} (h : t.Batched) :
    (flush.after t).line = (t.dequeue t.engine.batch).line := by
  by_cases hempty : t.loop.queue = []
  · rw [after_of_outcome (outcome_flush_of_empty hempty), dequeue_of_empty hempty]
  · rw [after, outcome_flush_of_batched h hempty]
    exact (line_trainOn t.nextBatch).bind_pure some (t.dequeue t.engine.batch)

/-- Without a batch size that is whole, a flush does nothing. -/
theorem after_flush_of_not_batched {t : Trainer α τ} (h : ¬t.Batched) : flush.after t = t := by
  rw [Batched, Bool.not_eq_true, Option.isSome_eq_false_iff, Option.isNone_iff_eq_none] at h
  rw [after, flush, outcome_get_bind, Number.toInt_eq, h]
  split <;> rfl

theorem sheds_flush : Respects Sheds (flush : Attempt (Trainer α τ) (Option α)) := by
  intro t
  by_cases h : t.Batched
  · have hdrop : Sheds t (t.dequeue t.engine.batch) := ⟨List.drop_suffix _ _, rfl⟩
    exact IsTrans.trans _ _ _ hdrop (sheds_of_fixes_line (line_after_flush h))
  · rw [after_flush_of_not_batched h]
    exact refl t

theorem sheds_poll [Moment τ] : Respects Sheds (poll : Attempt (Trainer α τ) (Option α)) := by
  refine respects_get_bind fun t => ?_
  split
  · exact refl t
  · split
    · exact sheds_flush t
    · exact refl t

/-- A sample that is taken in stands last, before a batch may be flushed. -/
theorem sheds_addSample {t : Trainer α τ} {inputs targets : Operand α} {sample : Sample α}
    (h : checkSample t.engine.size inputs targets = .ok sample) :
    Sheds (t.enqueue sample) ((addSample inputs targets).after t) := by
  rw [after, outcome_addSample_of_checked h]
  split
  · exact sheds_flush _
  · exact refl _

end Queue

variable [Scalar α] [Moment τ]

/-- A call leaves what waited and what it brought, but for the first samples of these. -/
theorem call_leaves (call : Call α τ) (t : Trainer α τ) :
    (call.perform.after t).loop.queue <:+ t.loop.queue ++ call.admitted t ∧
      (call.perform.after t).now = call.timeAfter t := by
  have hsheds : ∀ t' : Trainer α τ, Sheds t t' →
      t'.loop.queue <:+ t.loop.queue ++ [] ∧ t'.now = t.now := by
    intro t' h
    rw [List.append_nil]
    exact ⟨h.queue, h.now⟩
  cases call with
  | addSample inputs targets =>
      rw [Call.admitted, Call.accepted]
      cases hcheck : checkSample t.engine.size inputs targets with
      | error f =>
          refine hsheds _ ?_
          rw [Call.perform, after, addSample, outcome_get_bind, hcheck, outcome_of_error_bind]
          exact refl t
      | ok sample => exact ⟨(sheds_addSample hcheck).queue, (sheds_addSample hcheck).now⟩
  | poll => exact hsheds _ (sheds_poll t)
  | flush => exact hsheds _ (sheds_flush t)
  | elapse d => exact ⟨(List.append_nil t.loop.queue).symm ▸ List.suffix_rfl, rfl⟩
  | setTraining settings =>
      refine hsheds _ ?_
      rw [Call.perform, after_bind_pure]
      exact ⟨List.suffix_rfl, rfl⟩

/-!
## Runs
-/

/-- However calls follow one another, what waits is the end of all that was ever taken in. -/
theorem queue_afterCalls (calls : List (Call α τ)) (t : Trainer α τ) :
    (t.afterCalls calls).loop.queue <:+ t.loop.queue ++ t.admittedFrom calls := by
  induction calls generalizing t with
  | nil =>
      rw [admittedFrom, List.append_nil]
      exact List.suffix_rfl
  | cons call rest ih =>
      have hrest := ih (call.perform.after t)
      rw [admittedFrom, ← List.append_assoc]
      exact hrest.trans (List.suffix_append_self_iff.mpr (call_leaves call t).1)

section Exact

variable [Field τ] [LinearOrder τ] [IsStrictOrderedRing τ] [ExactMoment τ]

omit [Scalar α] in
theorem Call.le_timeAfter {call : Call α τ} (h : call.GoesForward) (t : Trainer α τ) :
    t.now ≤ call.timeAfter t := by
  cases call with
  | elapse d =>
      rw [Call.timeAfter, ExactMoment.add_eq]
      exact le_add_of_nonneg_right h
  | _ => exact le_refl t.now

/-- A sample that is taken in arrives after all others, and none of these is moved. -/
theorem Ordered.step {t : Trainer α τ} {call : Call α τ} (h : t.Ordered)
    (hforward : call.GoesForward) : (call.perform.after t).Ordered := by
  rcases call_leaves call t with ⟨hqueue, hnow⟩
  have hadmitted : ∀ q ∈ call.admitted t, q.arrival = t.now := by
    intro q hq
    rcases List.mem_map.mp hq with ⟨sample, -, rfl⟩
    rfl
  refine ⟨List.Pairwise.sublist (hqueue.sublist.map Queued.arrival) ?_, fun q hq => ?_⟩
  · rw [List.map_append, List.pairwise_append]
    refine ⟨h.arrivals, List.pairwise_of_forall_mem_list ?_, ?_⟩
    · simp only [List.forall_mem_map]
      intro q hq q' hq'
      rw [hadmitted q hq, hadmitted q' hq']
    · simp only [List.forall_mem_map]
      intro q hq q' hq'
      rw [hadmitted q' hq']
      exact h.arrived q hq
  · rw [hnow]
    refine le_trans ?_ (Call.le_timeAfter hforward t)
    rcases List.mem_append.mp (hqueue.mem hq) with hq | hq
    · exact h.arrived q hq
    · exact le_of_eq (hadmitted q hq)

theorem Ordered.afterCalls {t : Trainer α τ} {calls : List (Call α τ)} (h : t.Ordered)
    (hforward : ∀ call ∈ calls, call.GoesForward) : (t.afterCalls calls).Ordered := by
  induction calls generalizing t with
  | nil => exact h
  | cons call rest ih =>
      exact ih (h.step (hforward call List.mem_cons_self))
        fun later hlater => hforward later (List.mem_cons_of_mem call hlater)

omit [Scalar α] [Moment τ] [ExactMoment τ] in
/-- No sample of an ordered queue has waited longer than the first one. -/
theorem Ordered.waited_le {t : Trainer α τ} {oldest q : Queued α τ} (h : t.Ordered)
    (holdest : t.loop.queue.head? = some oldest) (hq : q ∈ t.loop.queue) :
    t.waited q ≤ t.waited oldest := by
  rcases List.head?_eq_some_iff.mp holdest with ⟨rest, hqueue⟩
  have harrivals := h.arrivals
  rw [hqueue, List.map_cons, List.pairwise_cons] at harrivals
  rw [hqueue] at hq
  have hfirst : oldest.arrival ≤ q.arrival := by
    rcases List.mem_cons.mp hq with rfl | hq
    · exact le_rfl
    · exact harrivals.1 q.arrival (List.mem_map_of_mem hq)
  exact mul_le_mul_of_nonneg_right (sub_le_sub_left hfirst t.now) (Nat.ofNat_nonneg 1000)

/-- Whether a sample of a queue has waited as long as a poll takes for long enough. -/
def Overdue (t : Trainer α τ) (q : Queued α τ) : Prop :=
  ∃ ms, t.engine.training.idleFlushMs.amount? τ = some ms ∧ ms ≤ .of (t.waited q)

omit [Scalar α] [IsStrictOrderedRing τ] in
theorem atLeast_iff_overdue (t : Trainer α τ) (q : Queued α τ) :
    Moment.atLeast (Moment.sub t.now q.arrival) t.engine.training.idleFlushMs = true ↔
      t.Overdue q := by
  rw [ExactMoment.atLeast_iff, ExactMoment.sub_eq]
  rfl

omit [Scalar α] [Moment τ] [ExactMoment τ] in
theorem Ordered.overdue_head {t : Trainer α τ} {oldest q : Queued α τ} (h : t.Ordered)
    (holdest : t.loop.queue.head? = some oldest) (hq : q ∈ t.loop.queue) (hdue : t.Overdue q) :
    t.Overdue oldest := by
  rcases hdue with ⟨ms, hms, hle⟩
  refine ⟨ms, hms, hle.trans ?_⟩
  exact WithBot.coe_le_coe.mpr (WithTop.coe_le_coe.mpr (h.waited_le holdest hq))

/-- If any sample has waited long enough, a poll is a flush. -/
theorem Ordered.outcome_poll_of_overdue {t : Trainer α τ} {q : Queued α τ} (h : t.Ordered)
    (hq : q ∈ t.loop.queue) (hdue : t.Overdue q) :
    poll.outcome t = flush.outcome t := by
  cases hqueue : t.loop.queue with
  | nil =>
      rw [hqueue] at hq
      cases hq
  | cons oldest rest =>
      have hhead : t.loop.queue.head? = some oldest := by rw [hqueue, List.head?_cons]
      have hlong := (atLeast_iff_overdue t oldest).mpr (h.overdue_head hhead hq hdue)
      rw [poll, outcome_get_bind, hqueue]
      dsimp only
      rw [if_pos hlong]

omit [Moment τ] [Field τ] [LinearOrder τ] [IsStrictOrderedRing τ] [ExactMoment τ] in
/-- If a sample waits, a flush reports a loss or fails. -/
theorem flush_reports {t : Trainer α τ} (h : t.loop.queue ≠ []) :
    (flush.outcome t).1 ≠ .ok none := by
  intro hnone
  rcases flush_ticks (Prod.ext hnone rfl) with ⟨hempty, -, -⟩ | ⟨-, -, loss, packed, hsome, -⟩
  · exact h (waiting_eq_nil_iff.mp hempty)
  · cases hsome

/-- If a poll flushes nothing, no sample has waited long enough. -/
theorem Ordered.poll_eq_none {t t' : Trainer α τ} (h : t.Ordered)
    (hrun : poll.outcome t = (.ok none, t')) :
    t' = t ∧ ∀ q ∈ t.loop.queue, ¬t.Overdue q := by
  rcases poll_flushes hrun with ⟨oldest, hhead, -, hflush⟩ | ⟨hshort, -, rfl⟩
  · have hsome := List.ne_nil_of_mem (List.mem_of_mem_head? hhead)
    exact absurd (congrArg Prod.fst hflush) (flush_reports hsome)
  · refine ⟨rfl, fun q hq hdue => ?_⟩
    cases hhead : t'.loop.queue.head? with
    | none =>
        rw [List.head?_eq_none_iff.mp hhead] at hq
        cases hq
    | some oldest =>
        have hlong := (atLeast_iff_overdue t' oldest).mpr (h.overdue_head hhead hq hdue)
        exact Bool.false_ne_true ((hshort oldest hhead).symm.trans hlong)

omit [Scalar α] [Moment τ] [IsStrictOrderedRing τ] [ExactMoment τ] in
theorem lt_of_not_overdue {t : Trainer α τ} {q : Queued α τ} {ms : Amount τ}
    (h : ¬t.Overdue q) (hms : t.engine.training.idleFlushMs.amount? τ = some ms) :
    .of (t.waited q) < ms :=
  lt_of_not_ge fun hle => h ⟨ms, hms, hle⟩

/--
However samples, polls, flushes, pauses and other settings follow one another, whether they fail
or not, the samples that wait are the last ones that were taken in.  They stand in the order of
their arrival and keep the times at which they arrived.  A poll that flushes nothing leaves
samples that have all waited less than the limit, and if any one has waited as long, it flushes.
-/
theorem poll_decides_on_oldest {t t' : Trainer α τ} {calls : List (Call α τ)}
    (hempty : t.loop.queue = []) (hforward : ∀ call ∈ calls, call.GoesForward)
    (hrun : t.afterCalls calls = t') :
    t'.loop.queue <:+ t.admittedFrom calls ∧ t'.Ordered ∧
      (∀ t'', poll.outcome t' = (.ok none, t'') → t'' = t' ∧ ∀ q ∈ t'.loop.queue, ∀ ms,
        t'.engine.training.idleFlushMs.amount? τ = some ms → .of (t'.waited q) < ms) ∧
      ∀ q ∈ t'.loop.queue, t'.Overdue q →
        poll.outcome t' = flush.outcome t' ∧ (flush.outcome t').1 ≠ .ok none ∧
          (t'.Batched → (poll.after t').loop.queue = t'.loop.queue.drop t'.engine.batch) := by
  have hqueue := queue_afterCalls calls t
  rw [hempty, List.nil_append, hrun] at hqueue
  have hstart : t.Ordered := by
    constructor
    · rw [hempty]
      exact List.Pairwise.nil
    · rw [hempty]
      exact fun q hq => absurd hq List.not_mem_nil
  have hordered : t'.Ordered := hrun ▸ hstart.afterCalls hforward
  refine ⟨hqueue, hordered, fun t'' hpoll => ?_, fun q hq hdue => ?_⟩
  · rcases hordered.poll_eq_none hpoll with ⟨hstate, hnone⟩
    exact ⟨hstate, fun q hq ms hms => lt_of_not_overdue (hnone q hq) hms⟩
  · have hpoll := hordered.outcome_poll_of_overdue hq hdue
    refine ⟨hpoll, flush_reports (List.ne_nil_of_mem hq), fun hbatched => ?_⟩
    rw [after, hpoll]
    exact congrArg Prod.fst (line_after_flush hbatched)

end Exact

/-- Calls that carry a sample over, as batches get smaller while samples wait. -/
def overlapping : List (Call Float32 Rat) :=
  [.setTraining { inPairs with microBatchSize := .whole 3, microBatchSize_not_less := by decide },
    .addSample (.ok #[1.0, 0.0]) (.ok #[0.0, 1.0]), .elapse (1 / 10),
    .addSample (.ok #[0.0, 1.0]) (.ok #[1.0, 0.0]), .elapse (1 / 10), .setTraining inPairs,
    .addSample (.ok #[1.0, 1.0]) (.ok #[1.0, 1.0]), .poll, .elapse (3 / 10)]

/-- A trainer that has carried a sample over. -/
def overlapped : Trainer Float32 Rat := afterCalls ⟨pairing, 0, .fresh⟩ overlapping

/-- The sample that is carried over keeps its time, and is flushed when it has waited 300 ms. -/
theorem poll_decides_on_oldest_overlapping :
    (∀ call ∈ overlapping, call.GoesForward) ∧
      overlapped.loop.queue.map Queued.arrival = [1 / 5] ∧
      overlapped.loop.queue <:+ admittedFrom ⟨pairing, 0, .fresh⟩ overlapping ∧
      poll.outcome overlapped = flush.outcome overlapped ∧
      (poll.after overlapped).loop.queue = [] := by
  have hforward : ∀ call ∈ overlapping, call.GoesForward := by decide +kernel
  have harrivals : overlapped.loop.queue.map Queued.arrival = [1 / 5] := by decide +kernel
  rcases List.map_eq_singleton_iff.mp harrivals with ⟨q, hqueue, harrival⟩
  have hrun : afterCalls ⟨pairing, 0, .fresh⟩ overlapping = overlapped := rfl
  rcases poll_decides_on_oldest rfl hforward hrun with ⟨hadmitted, -, -, hflushes⟩
  have hdue : overlapped.Overdue q := by
    rw [← atLeast_iff_overdue, harrival]
    decide +kernel
  rcases hflushes q (hqueue ▸ List.mem_singleton_self q) hdue with ⟨hpoll, -, hleft⟩
  have hbatched : overlapped.Batched := by decide +kernel
  have hbatch : overlapped.engine.batch = 2 := by decide +kernel
  have hnone := hleft hbatched
  rw [hqueue, hbatch, List.drop_succ_cons, List.drop_nil] at hnone
  exact ⟨hforward, harrivals, hadmitted, hpoll, hnone⟩

end Trainer
end Plexus
