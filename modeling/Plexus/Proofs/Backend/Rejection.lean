import Plexus.Proofs.Backend.Request

/-!
# Requests that are rejected

Whatever a backend is asked for, in whatever state it is: if its checks reject the request, the
backend is the same as before, and what follows comes to the same as if nothing had been asked.
Only requests that have passed all checks leave something behind when they fail.
-/

namespace Plexus
namespace Backend

open Attempt

variable {α : Type}

/-!
## Operations that only fail in their checks
-/

theorem atomic_init : Atomic (init : Attempt (Backend α) Unit) := by
  refine atomic_get_bind fun b b' f h => ?_
  rcases (respects_of _).check_eq_error h with rfl | ⟨device, -, h⟩
  · rfl
  · cases h

theorem atomic_setTargets (targets : Operand α) :
    Atomic (setTargets targets : Attempt (Backend α) Unit) := by
  refine respects_requireTraining.atomic fun _ => (respects_require _ _).atomic fun _ => ?_
  refine (respects_checkTargets targets).atomic fun ts => atomic_get_bind fun b b' f h => ?_
  split at h
  · split at h
    · cases h
    · cases h
      rfl
  · cases h
    rfl

variable [Scalar α]

theorem atomic_forward (inputs : Operand α) :
    Atomic (forward inputs : Attempt (Backend α) (Array α)) := by
  refine (respects_require _ _).atomic fun _ => (respects_of inputs).atomic fun xs => ?_
  refine atomic_get_bind fun b b' f h => ?_
  dsimp only at h
  split at h
  · cases h
    rfl
  · split at h
    · cases h
    · exact atomic_of _ _ _ _ (outcome_bind_pure_eq_error h)
    · cases h
      rfl

theorem atomic_readParameters :
    Atomic (readParameters : Attempt (Backend α) (Array α × Array α)) := by
  refine (respects_require _ _).atomic fun _ => atomic_get_bind fun b b' f h => ?_
  split at h
  · cases h
  · cases h
  · cases h
    rfl

theorem atomic_setLearningRate (rate : Except Fault Float) :
    Atomic (setLearningRate rate : Attempt (Backend α) Unit) := by
  refine atomic_get_bind fun b b' f h => ?_
  split at h
  · rcases (respects_of rate).check_eq_error h with rfl | ⟨x, -, h⟩
    · rfl
    dsimp only at h
    split at h
    · cases h
      rfl
    · cases h
  · cases h

/-!
## Operations that fail after their checks
-/

/-- A request that has passed all checks, and fails while it is carried out. -/
inductive Request.Strains (b : Backend α) (f : Fault) : Request α → Prop where
  /-- There is no room for a network. -/
  | network {size : Value} {weights biases : Operand α} {batch : Except Fault Number}
      {activations : Except Fault (Option (List Value))} {n : Network α}
      (hstage : .ready ≤ b.stage)
      (hcheck : checkNetwork b.host.memory size weights biases batch activations = .ok n)
      (hload : b.machine.unload.load b.host.memory n = .error f) :
      Strains b f (.call (.prepare size weights biases batch activations))
  /-- There is no network, and its rows are too many for targets. -/
  | training {targets : Operand α} {rate : Except Fault Float} {p : Array α × Float} {rows : Nat}
      (hcheck : (readTraining targets rate).outcome b = (.ok p, b)) (hnetwork : b.arena = none)
      (hdeltas : Machine.rows b.givenBatch = .ok rows) (htargets : b.givenBatch.rows = .error f) :
      Strains b f (.prepareTraining targets rate)
  /-- The settings ask for an update that cannot be had from the gradients. -/
  | update {deltas : Option (Operand α)} {given : Option (Array α)} {settings : TrainingSettings}
      {a : Arena α} {t : TrainingBuffers α}
      (hcheck : (readDeltas deltas).outcome b = (.ok given, b))
      (hmachine : b.machine = .dense settings (.network a)) (htraining : a.training = some t)
      (hupdate : a.trained b.size b.batch settings.rank t given = .error f) :
      Strains b f (.trainTick deltas)

theorem strains_of_prepare_eq_error {size : Value} {weights biases : Operand α}
    {batch : Except Fault Number} {activations : Except Fault (Option (List Value))}
    {b b' : Backend α} {f : Fault}
    (h : (prepare size weights biases batch activations).outcome b = (.error f, b')) :
    b' = b ∨ Request.Strains b f (.call (.prepare size weights biases batch activations)) := by
  rw [outcome_prepare] at h
  split at h
  · cases h
    exact Or.inl rfl
  · next hstage =>
    split at h
    · cases h
      exact Or.inl rfl
    · next n hcheck =>
      split at h
      · next hload =>
        cases h
        exact Or.inr (.network (Nat.not_lt.mp hstage) hcheck hload)
      · cases h

theorem strains_of_prepareTraining_eq_error {targets : Operand α} {rate : Except Fault Float}
    {b b' : Backend α} {f : Fault}
    (h : (prepareTraining targets rate).outcome b = (.error f, b')) :
    b' = b ∨ Request.Strains b f (.prepareTraining targets rate) := by
  rw [prepareTraining_eq] at h
  rcases (respects_readTraining targets rate).check_eq_error h with rfl | ⟨p, hcheck, h⟩
  · exact Or.inl rfl
  cases hmachine : b.machine with
  | graph claims built =>
      rw [allocateTraining, outcome_get_bind, hmachine] at h
      cases h
      exact Or.inl rfl
  | dense settings held =>
      rw [outcome_allocateTraining hmachine] at h
      split at h
      · cases h
        exact Or.inl rfl
      · next rows _ hdeltas htargets =>
        cases h
        cases held with
        | network a =>
            rw [Holding.withDeltas, ← hmachine]
            exact Or.inl rfl
        | nothing | deltas | training =>
            refine Or.inr (.training hcheck ?_ hdeltas htargets)
            rw [arena, Backend.held, hmachine]
            rfl
      · cases h

theorem strains_of_trainTick_eq_error {deltas : Option (Operand α)} {b b' : Backend α} {f : Fault}
    (h : (trainTick deltas).outcome b = (.error f, b')) :
    b' = b ∨ Request.Strains b f (.trainTick deltas) := by
  rw [trainTick_eq] at h
  rcases (respects_readDeltas deltas).check_eq_error h with rfl | ⟨given, hcheck, h⟩
  · exact Or.inl rfl
  rcases descend_cases given b with ⟨r, hunmoved⟩ | ⟨settings, a, t, hmachine, ht⟩
  · rw [hunmoved, Prod.mk.injEq] at h
    exact Or.inl h.2.symm
  · rw [outcome_descend hmachine ht] at h
    split at h
    · next hupdate =>
      cases h
      exact Or.inr (.update hcheck hmachine ht hupdate)
    · cases h

/-!
## Rejected requests
-/

/-- A request that fails without having passed all checks leaves the backend as it was. -/
theorem Request.eq_of_rejected {r : Request α} {b b' : Backend α} {f : Fault}
    (h : r.perform.outcome b = (.error f, b')) (hstrains : ¬r.Strains b f) : b' = b := by
  cases r with
  | call c =>
      cases c with
      | init => exact atomic_init.bind_pure _ _ _ _ h
      | prepare size weights biases batch activations =>
          exact (strains_of_prepare_eq_error (outcome_bind_pure_eq_error h)).resolve_right hstrains
      | forward inputs => exact (atomic_forward inputs).bind_pure _ _ _ _ h
      | readParameters => exact atomic_readParameters.bind_pure _ _ _ _ h
      | release => cases h
  | prepareTraining targets rate =>
      exact (strains_of_prepareTraining_eq_error
        (outcome_bind_pure_eq_error h)).resolve_right hstrains
  | setTargets targets => exact (atomic_setTargets targets).bind_pure _ _ _ _ h
  | setLearningRate rate => exact (atomic_setLearningRate rate).bind_pure _ _ _ _ h
  | trainTick deltas =>
      exact (strains_of_trainTick_eq_error (outcome_bind_pure_eq_error h)).resolve_right hstrains
  | configure settings => cases h

/--
A request that is rejected changes nothing: the backend is the same as before it, and all that is
asked for later comes to the same as without it.
-/
theorem unnoticed_of_rejected {r : Request α} {b b' : Backend α} {f : Fault}
    (h : r.perform.outcome b = (.error f, b')) (hstrains : ¬r.Strains b f)
    (later : List (Request α)) :
    b' = b ∧ record (r :: later) b = (.error f, b) :: record later b := by
  have hsame := r.eq_of_rejected h hstrains
  subst hsame
  refine ⟨rfl, ?_⟩
  rw [record, after_of_outcome h, h]

/-- A device is acquired and a network of one slot, which gives what it sums up, is prepared. -/
def setUp : List (Request Float32) :=
  [.call .init,
   .call (.prepare (.int 1) (.ok #[0.5]) (.ok #[1.0]) (.ok (.whole 1))
    (.ok (some [.text Activation.linear.tag])))]

/-- A backend on which a network of one slot has been prepared. -/
def single : Backend Float32 := run setUp (dense {} (.text "cpu") .default)

/-- A forward tick on two inputs. -/
def misfit : Request Float32 := .call (.forward (.ok #[1.0, 2.0]))

/-- A backend with a network of one slot rejects two inputs, and runs the next one as it would. -/
theorem unnoticed_of_rejected_misfit :
    single.buffers = BufferRole.network ∧
      ∃ f, misfit.perform.outcome single = (.error f, single) ∧
        record [misfit, .call (.forward (.ok #[1.0]))] single =
          (.error f, single) :: record [.call (.forward (.ok #[1.0]))] single := by
  have hlate : ¬single.stage < .compiled := by decide +kernel
  have hfits : single.fits #[1.0, 2.0] = false := by decide +kernel
  have hmisfit : misfit.perform.outcome single = (.error (.inputSize single.cells 2), single) :=
    outcome_bind_of_error (outcome_forward_of_misfit hlate hfits) _
  have hstrains : ∀ f, ¬misfit.Strains single f := by
    intro f h
    cases h
  exact ⟨by decide +kernel, _, hmisfit, (unnoticed_of_rejected hmisfit (hstrains _) _).2⟩

/-- A network without slots is to be prepared for some rows. -/
def crowding (batch : Number) : Request Float32 :=
  .call (.prepare (.int 0) (.ok #[]) (.ok #[]) (.ok batch) (.ok none))

/--
A network for more rows than there is room for, or for a number of rows that is not whole, is
refused, and by then the earlier network is gone.
-/
theorem network_lost_crowding :
    single.buffers = BufferRole.network ∧
      ((crowding (.whole (2 ^ 31))).perform.succeeds single = false ∧
        ((crowding (.whole (2 ^ 31))).perform.after single).buffers = []) ∧
      ((crowding (.real 1.5)).perform.succeeds single = false ∧
        ((crowding (.real 1.5)).perform.after single).buffers = []) := by
  decide +kernel

end Backend
end Plexus
