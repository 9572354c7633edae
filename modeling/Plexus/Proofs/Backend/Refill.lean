import Plexus.Proofs.Backend.Forward
import Plexus.Proofs.Backend.Gradients
import Plexus.Proofs.Backend.Request

/-!
# Buffers that are filled

An arena has a number of cells for each of its buffers that follows from the size of the network
and the rows it runs on.  Ticks, other targets and another rate put other numbers into the cells:
they allocate nothing and drop nothing.
-/

namespace Plexus

/-!
## Cells
-/

/-- The number of cells of a buffer of a network that runs on some rows. -/
def BufferRole.cells (size rows : Nat) : BufferRole → Nat
  | .weights => size * size
  | .biases | .codes => size
  | .input | .output | .staging | .deltas | .targets => size * rows
  | .dims => 2
  | .params => 1

/-- Buffers of training with a cell for each slot of each row. -/
structure TrainingBuffers.Sized {α : Type} (size rows : Nat) (t : TrainingBuffers α) : Prop where
  deltas : t.deltas.size = size * rows
  targets : t.targets.size = size * rows

/-- An arena with all cells of a network that runs on some rows. -/
structure Arena.Sized {α : Type} (size rows : Nat) (a : Arena α) : Prop where
  weights : a.weights.size = size * size
  biases : a.biases.size = size
  input : a.input.size = size * rows
  output : a.output.size = size * rows
  dims : a.dims.length = 2
  codes : a.codes.size = size
  staging : a.staging.size = size * rows
  training : ∀ t, a.training = some t → t.Sized size rows

namespace Arena

variable {α : Type} [Scalar α] {size rows : Nat} {a : Arena α}

theorem Sized.length_contents (h : a.Sized size rows) {role : BufferRole} (hrole : role ∈ a.roles) :
    (a.contents role).length = role.cells size rows := by
  have hcells : ∀ {xs : Array α} {n : Nat}, xs.size = n →
      (xs.toList.map Scalar.toFloat).length = n := by
    intro xs n hxs
    rw [List.length_map, Array.length_toList, hxs]
  have htraining : ∀ {role : BufferRole}, role ∈ a.roles → role ∉ BufferRole.network →
      ∃ t, a.training = some t := by
    intro role hrole hother
    rw [roles, List.mem_append] at hrole
    rcases hrole with hrole | hrole
    · exact absurd hrole hother
    · split at hrole
      · next hsome => exact Option.isSome_iff_exists.mp hsome
      · cases hrole
  cases role with
  | weights => exact hcells h.weights
  | biases => exact hcells h.biases
  | input => exact hcells h.input
  | output => exact hcells h.output
  | dims => exact (List.length_map _).trans h.dims
  | codes => exact (List.length_map _).trans (Array.length_toList.trans h.codes)
  | staging => exact hcells h.staging
  | deltas =>
      rcases htraining hrole (by decide) with ⟨t, ht⟩
      show ((a.training.map fun t => t.contents .deltas).getD []).length = _
      rw [ht]
      exact hcells (h.training t ht).deltas
  | targets =>
      rcases htraining hrole (by decide) with ⟨t, ht⟩
      show ((a.training.map fun t => t.contents .targets).getD []).length = _
      rw [ht]
      exact hcells (h.training t ht).targets
  | params =>
      rcases htraining hrole (by decide) with ⟨t, ht⟩
      show ((a.training.map fun t => t.contents .params).getD []).length = _
      rw [ht]
      rfl

theorem sized_allocate {n : Network α} (h : Backend.Shaped n) (precision : Precision)
    (rows : Nat) :
    (allocate precision n.size rows n.weights n.biases n.codes).Sized n.size rows where
  weights := by rw [allocate, Array.size_map, h.weights]
  biases := by rw [allocate, Array.size_map, h.biases]
  input := by rw [allocate, Scalar.size_zeros, Nat.mul_comm]
  output := by rw [allocate, Scalar.size_zeros, Nat.mul_comm]
  dims := rfl
  codes := by rw [allocate, List.size_toArray, h.codes]
  staging := by rw [allocate, Scalar.size_zeros, Nat.mul_comm]
  training := by
    intro t ht
    cases ht

theorem sized_allocateTraining {targets : Array α} (h : targets.size = size * rows)
    (precision : Precision) (rate : Float) :
    (TrainingBuffers.allocate precision size rows targets rate).Sized size rows where
  deltas := by rw [TrainingBuffers.allocate, Scalar.size_zeros, Nat.mul_comm]
  targets := h

theorem Sized.forward {xs : Array α} (h : a.Sized size rows) (hxs : xs.size = size * rows) :
    (a.forward size rows xs).Sized size rows where
  weights := h.weights
  biases := h.biases
  input := hxs
  output := size_output_forward a size rows xs
  dims := h.dims
  codes := h.codes
  staging := size_output_forward a size rows xs
  training := h.training

omit [Scalar α] in
theorem Sized.withTraining {t : TrainingBuffers α} (h : a.Sized size rows)
    (ht : t.Sized size rows) : Sized size rows { a with training := some t } where
  weights := h.weights
  biases := h.biases
  input := h.input
  output := h.output
  dims := h.dims
  codes := h.codes
  staging := h.staging
  training := by
    intro t' ht'
    cases ht'
    exact ht

theorem size_deltasOf {given : Option (Array α)} (h : ∀ ds, given = some ds → ds.size = size * rows)
    (a : Arena α) (t : TrainingBuffers α) :
    (a.deltasOf size rows t given).size = size * rows := by
  cases given with
  | none => exact size_deltas a size rows t
  | some ds => rw [deltasOf, Array.size_map, h ds rfl]

theorem Sized.keepDeltas {t : TrainingBuffers α} {given : Option (Array α)} (h : a.Sized size rows)
    (ht : a.training = some t) (hgiven : ∀ ds, given = some ds → ds.size = size * rows) :
    (a.keepDeltas t (a.deltasOf size rows t given)).Sized size rows :=
  h.withTraining ⟨size_deltasOf hgiven a t, (h.training t ht).targets⟩

/-- A training tick leaves all cells if an approximation has as many as what it approximates. -/
theorem Sized.train
    (hprincipal : ∀ n k (m : Array α), (Scalar.principal n n k m).size = n * n)
    {t : TrainingBuffers α} {given : Option (Array α)} (h : a.Sized size rows)
    (ht : a.training = some t) (hgiven : ∀ ds, given = some ds → ds.size = size * rows)
    (rank : Option Nat) :
    (a.train size rows rank t given).Sized size rows := by
  have hkept := h.keepDeltas ht hgiven
  have hgradients : ∀ deltas : Array α,
      ((a.keepDeltas t deltas).updateGradients size rows rank deltas).size = size * size := by
    intro deltas
    cases rank with
    | none => exact size_weightGradients _ size rows deltas
    | some k => exact hprincipal size k _
  refine { hkept with weights := ?_, biases := ?_ }
  · rw [Arena.train, update, Array.size_zipWith, hgradients, hkept.weights, Nat.min_self]
  · rw [Arena.train, update, Array.size_zipWith, size_biasGradients, hkept.biases, Nat.min_self]

end Arena

namespace Holding

variable {α : Type}

theorem weights_mem_roles {h : Holding α} : .weights ∈ h.roles ↔ ∃ a, h = .network a := by
  cases h with
  | nothing | network | deltas | training =>
      simp [roles, Arena.roles, BufferRole.network, BufferRole.training]

theorem targets_mem_roles {h : Holding α} : .targets ∈ h.roles ↔ h.training?.isSome = true := by
  cases h with
  | nothing | network | deltas | training =>
      simp [roles, Arena.roles, BufferRole.network, BufferRole.training, training?]

theorem weights_mem_roles_withDeltas (h : Holding α) (cells : Array α) (precision : Precision) :
    .weights ∈ (h.withDeltas cells precision).roles ↔ .weights ∈ h.roles := by
  cases h with
  | nothing | network | deltas | training => simp [roles, withDeltas]

theorem weights_mem_roles_withTraining (h : Holding α) (t : TrainingBuffers α) :
    .weights ∈ (h.withTraining t).roles ↔ .weights ∈ h.roles := by
  cases h with
  | nothing | deltas | network | training =>
      simp [roles, Arena.roles, withTraining, BufferRole.network, BufferRole.training]

theorem roles_withTraining {h : Holding α} {t : TrainingBuffers α} (ht : h.training? = some t)
    (t' : TrainingBuffers α) : (h.withTraining t').roles = h.roles := by
  cases h with
  | network a =>
      have hsome : a.training = some t := ht
      simp [roles, Arena.roles, withTraining, hsome]
  | training => rfl
  | nothing | deltas => cases ht

end Holding

namespace Backend

open Attempt

/-!
## What fills the buffers
-/

section Refill

variable {α : Type} [Scalar α]

/-- What ticks and overwritten buffers make of a backend. -/
inductive Refill (b : Backend α) : Backend α → Prop where
  | same : Refill b b
  | forward {settings : TrainingSettings} {a : Arena α} {xs : Array α}
      (hmachine : b.machine = .dense settings (.network a)) (hfits : b.fits xs = true) :
      Refill b (b.withArena settings (a.forward b.size b.batch xs))
  /-- The deltas of a training tick that goes no further. -/
  | deltas {settings : TrainingSettings} {a : Arena α} {t : TrainingBuffers α}
      {given : Option (Array α)} (hmachine : b.machine = .dense settings (.network a))
      (htraining : a.training = some t) (hfits : ∀ ds, given = some ds → b.fits ds = true) :
      Refill b (b.withArena settings (a.keepDeltas t (a.deltasOf b.size b.batch t given)))
  | train {settings : TrainingSettings} {a : Arena α} {t : TrainingBuffers α}
      {given : Option (Array α)} (hmachine : b.machine = .dense settings (.network a))
      (htraining : a.training = some t) (hfits : ∀ ds, given = some ds → b.fits ds = true)
      (rank : Option Nat) :
      Refill b (b.withArena settings (a.train b.size b.batch rank t given))
  | targets {settings : TrainingSettings} {held : Holding α} {t : TrainingBuffers α}
      {ts : Array α} (hmachine : b.machine = .dense settings held)
      (htraining : held.training? = some t) (hfits : b.fits ts = true) :
      Refill b { b with machine := .dense settings (held.withTraining { t with targets := ts }) }
  | rate {settings : TrainingSettings} {held : Holding α} {t : TrainingBuffers α}
      (hmachine : b.machine = .dense settings held) (htraining : held.training? = some t) (x : α) :
      Refill b { b with machine := .dense settings (held.withTraining { t with rate := x }) }

omit [Scalar α] in
theorem checkTargets_eq_ok {targets : Operand α} {b b' : Backend α} {ts : Array α}
    (h : (checkTargets targets).outcome b = (.ok ts, b')) :
    targets = .ok ts ∧ b.fits ts = true := by
  rcases outcome_bind_eq_ok h with ⟨xs, _, hof, h⟩
  rcases outcome_of_eq_ok hof with ⟨rfl, rfl⟩
  rw [outcome_get_bind] at h
  dsimp only at h
  split at h
  · cases h
  · next hfits =>
    cases h
    exact ⟨rfl, by simpa using hfits⟩

omit [Scalar α] in
theorem readDeltas_eq_ok {deltas : Option (Operand α)} {b b' : Backend α}
    {given : Option (Array α)} (h : (readDeltas deltas).outcome b = (.ok given, b')) :
    ∀ ds, given = some ds → b.fits ds = true := by
  rcases trainable_of_requireTraining h with ⟨-, h⟩
  rcases stage_of_require h with ⟨-, h⟩
  cases deltas with
  | none =>
      cases h
      intro ds hds
      cases hds
  | some xs =>
      rcases outcome_bind_eq_ok h with ⟨ts, _, hcheck, h⟩
      rcases checkTargets_eq_ok hcheck with ⟨-, hfits⟩
      cases h
      intro ds hds
      cases hds
      exact hfits

theorem refill_forward (inputs : Operand α) :
    Respects Refill (forward inputs : Attempt (Backend α) (Array α)) := by
  intro b
  refine check_induction (respects_require _ _) .same fun _ _ => ?_
  refine check_induction (respects_of inputs) .same fun xs _ => ?_
  rw [after, outcome_get_bind]
  dsimp only
  split
  · exact .same
  · next hfits =>
    split
    · next settings a hmachine => exact .forward hmachine (by simpa using hfits)
    · exact check_induction (respects_of _) .same fun _ _ => .same
    · exact .same

theorem refill_readParameters :
    Respects Refill (readParameters : Attempt (Backend α) (Array α × Array α)) := by
  intro b
  rw [after]
  refine check_induction (respects_require _ _) .same fun _ _ => ?_
  rw [after, outcome_get_bind]
  split
  · exact .same
  · exact .same
  · exact .same

theorem refill_setTargets (targets : Operand α) :
    Respects Refill (setTargets targets : Attempt (Backend α) Unit) := by
  intro b
  refine check_induction respects_requireTraining .same fun _ _ => ?_
  refine check_induction (respects_require _ _) .same fun _ _ => ?_
  refine check_induction (respects_checkTargets targets) .same fun ts hts => ?_
  rw [after, outcome_get_bind]
  split
  · next settings held hmachine =>
    split
    · next t ht => exact .targets hmachine ht (checkTargets_eq_ok hts).2
    · exact .same
  · exact .same

theorem refill_setLearningRate (rate : Except Fault Float) :
    Respects Refill (setLearningRate rate : Attempt (Backend α) Unit) := by
  intro b
  rw [after, setLearningRate, outcome_get_bind]
  split
  · next settings held t hmachine ht =>
    refine check_induction (respects_of rate) .same fun x _ => ?_
    rw [after]
    dsimp only
    split
    · exact .same
    · rw [Backend.held, hmachine] at ht
      exact .rate hmachine ht _
  · exact .same

theorem refill_trainTick (deltas : Option (Operand α)) :
    Respects Refill (trainTick deltas : Attempt (Backend α) Unit) := by
  intro b
  rw [trainTick_eq]
  refine check_induction (respects_readDeltas deltas) .same fun given hgiven => ?_
  have hfits := readDeltas_eq_ok hgiven
  rcases descend_cases given b with ⟨r, hunmoved⟩ | ⟨settings, a, t, hmachine, ht⟩
  · rw [after_of_outcome hunmoved]
    exact .same
  · rw [after, outcome_descend hmachine ht]
    split
    · exact .deltas hmachine ht hfits
    · next a' htrained =>
      rcases bind_eq_ok htrained with ⟨_, -, htrained⟩
      rcases bind_eq_ok htrained with ⟨rank, -, htrained⟩
      cases htrained
      exact .train hmachine ht hfits rank

/-- A request that at most fills buffers. -/
def Request.Fills : Request α → Prop
  | .call (.forward _) | .call .readParameters | .setTargets _ | .setLearningRate _
  | .trainTick _ => True
  | _ => False

theorem refill_perform {r : Request α} (hr : r.Fills) : Respects Refill r.perform := by
  cases r with
  | call c =>
      cases c with
      | forward inputs => exact (refill_forward inputs).bind_pure _
      | readParameters => exact refill_readParameters.bind_pure fun p => Answer.parameters p.1 p.2
      | init | prepare | release => cases hr
  | setTargets targets => exact (refill_setTargets targets).bind_pure _
  | setLearningRate rate => exact (refill_setLearningRate rate).bind_pure _
  | trainTick deltas => exact (refill_trainTick deltas).bind_pure _
  | prepareTraining | configure => cases hr

/-!
## What stays
-/

/-- A backend that another one has come to without a buffer being allocated or dropped. -/
structure Steady (b b' : Backend α) : Prop where
  stage : b'.stage = b.stage
  size : b'.size = b.size
  batch : b'.givenBatch = b.givenBatch
  buffers : b'.buffers = b.buffers
  dense : (∃ settings held, b.machine = .dense settings held) →
    ∃ settings held, b'.machine = .dense settings held

omit [Scalar α] in
theorem steady_of_dense {b : Backend α} {settings settings' : TrainingSettings}
    {held held' : Holding α} (h : b.machine = .dense settings held)
    (hroles : held'.roles = held.roles) :
    b.Steady { b with machine := .dense settings' held' } where
  stage := rfl
  size := rfl
  batch := rfl
  buffers := by
    rw [buffers, buffers, Backend.held, Backend.held, h]
    exact hroles
  dense := fun _ => ⟨settings', held', rfl⟩

omit [Scalar α] in
theorem steady_configure (settings : TrainingSettings) (b : Backend α) :
    b.Steady (b.configure settings) := by
  unfold configure
  split
  · next hmachine => exact steady_of_dense hmachine rfl
  · exact ⟨rfl, rfl, rfl, rfl, id⟩

theorem Refill.steady {b b' : Backend α} (h : b.Refill b') : b.Steady b' := by
  cases h with
  | same => exact ⟨rfl, rfl, rfl, rfl, id⟩
  | forward hmachine => exact steady_of_dense hmachine rfl
  | deltas hmachine htraining | train hmachine htraining =>
      exact steady_of_dense hmachine (Holding.roles_withTraining (h := .network _) htraining _)
  | targets hmachine htraining | rate hmachine htraining =>
      exact steady_of_dense hmachine (Holding.roles_withTraining htraining _)

end Refill

end Backend
end Plexus
