import Plexus.Proofs.Training.Flush

/-!
# Samples that no longer fit

A sample is as wide as the network when it is queued, and the network may have another size when
it is trained on.  A flush refuses a sample that is too long or too short for its row, unless it
has a single component: that component then fills the row.
-/

namespace Plexus

namespace Sample

variable {α : Type}

/-- Whether a sample is as wide as a network. -/
def Fits (size : Nat) (s : Sample α) : Prop := s.inputs.size = size ∧ s.targets.size = size

/-- Whether a sample has a single component that would fill a row of another width. -/
def Stretches (size : Nat) (s : Sample α) : Prop :=
  size ≠ 1 ∧ (s.inputs.size = 1 ∨ s.targets.size = 1)

end Sample

namespace Trainer

open Attempt

variable {α τ : Type}

/-- Whether a row can be packed for a network. -/
def Packable (size : Nat) (row : Array α) : Prop := row.size = size ∨ row.size = 1

/-- Cells whose row at some place is a given one, component by component. -/
structure HasRow (size : Nat) (cells : Array α) (r : Nat) (row : Array α) : Prop where
  width : row.size = size
  component : ∀ i < size, cells[r * size + i]? = row[i]?

/-- Packed cells whose leading rows are the samples, component by component. -/
def Faithful (size : Nat) (samples : List (Sample α)) (packed : Sample α) : Prop :=
  ∀ (r : Nat) (s : Sample α), samples[r]? = some s →
    HasRow size packed.inputs r s.inputs ∧ HasRow size packed.targets r s.targets

theorem Faithful.fits {size : Nat} {samples : List (Sample α)} {packed : Sample α}
    (h : Faithful size samples packed) {s : Sample α} (hs : s ∈ samples) :
    s.Fits size := by
  rcases List.mem_iff_getElem?.mp hs with ⟨r, hr⟩
  exact ⟨(h r s hr).1.width, (h r s hr).2.width⟩

theorem not_stretches_of_fits {size : Nat} {s : Sample α} (h : s.Fits size) :
    ¬s.Stretches size := by
  rintro ⟨hmany, hone | hone⟩
  · exact hmany (h.1.symm.trans hone)
  · exact hmany (h.2.symm.trans hone)

theorem fits_of_packable {size : Nat} {s : Sample α}
    (h : Packable size s.inputs ∧ Packable size s.targets) (hstretches : ¬s.Stretches size) :
    s.Fits size := by
  unfold Packable at h
  unfold Sample.Stretches at hstretches
  unfold Sample.Fits
  omega

theorem length_nextBatch_le (t : Trainer α τ) : t.nextBatch.length ≤ t.engine.batch :=
  List.length_take_le _ _

variable [Scalar α]

/-!
## Packing rows of any width
-/

/-- What a row is packed as. -/
def stretch (size : Nat) (row : Array α) : Array α :=
  if row.size = size then row else Array.replicate size (Scalar.cell row 0)

theorem fitRow_eq_ok {size : Nat} {row packed : Array α} (h : fitRow size row = .ok packed) :
    Packable size row ∧ packed = stretch size row := by
  unfold fitRow at h
  unfold Packable stretch
  split at h
  · next hwide =>
    cases h
    exact ⟨Or.inl hwide, (if_pos hwide).symm⟩
  · next hwide =>
    split at h
    · next hone =>
      cases h
      exact ⟨Or.inr hone, (if_neg hwide).symm⟩
    · cases h

theorem size_stretch (size : Nat) (row : Array α) : (stretch size row).size = size := by
  unfold stretch
  split
  · assumption
  · exact Array.size_replicate

theorem mapM_fitRow_eq_ok {samples : List (Sample α)} {part : Sample α → Array α} {size : Nat}
    {rows : List (Array α)} (h : (samples.mapM fun s => fitRow size (part s)) = .ok rows) :
    (∀ s ∈ samples, Packable size (part s)) ∧
      rows = samples.map fun s => stretch size (part s) := by
  induction samples generalizing rows with
  | nil =>
      cases h
      exact ⟨fun s hs => absurd hs List.not_mem_nil, rfl⟩
  | cons s rest ih =>
      rw [List.mapM_cons] at h
      rcases bind_eq_ok h with ⟨row, hrow, h⟩
      rcases bind_eq_ok h with ⟨others, hothers, h⟩
      cases h
      rcases fitRow_eq_ok hrow with ⟨hpackable, rfl⟩
      rcases ih hothers with ⟨hrest, rfl⟩
      exact ⟨List.forall_mem_cons.mpr ⟨hpackable, hrest⟩, rfl⟩

/-- A part of some samples, as it is packed. -/
def stretched (size batch : Nat) (padding : α) (part : Sample α → Array α)
    (samples : List (Sample α)) : Array α :=
  joinRows (batch * size) padding (samples.map fun s => stretch size (part s))

/-- Samples that are packed have rows of the right width, or single components. -/
theorem pack_stretched {size batch : Nat} {samples : List (Sample α)} {packed : Sample α}
    (h : pack size batch samples = .ok packed) :
    (∀ s ∈ samples, Packable size s.inputs ∧ Packable size s.targets) ∧
      packed.inputs = stretched size batch Scalar.zero Sample.inputs samples ∧
      packed.targets = stretched size batch Scalar.noTarget Sample.targets samples := by
  rw [pack] at h
  rcases bind_eq_ok h with ⟨inputs, hinputs, h⟩
  rcases bind_eq_ok h with ⟨targets, htargets, h⟩
  cases h
  rcases mapM_fitRow_eq_ok hinputs with ⟨hwide, rfl⟩
  rcases mapM_fitRow_eq_ok htargets with ⟨hlong, rfl⟩
  exact ⟨fun s hs => ⟨hwide s hs, hlong s hs⟩, rfl, rfl⟩

theorem padded_stretched {samples : List (Sample α)} {size batch : Nat}
    (hcount : samples.length ≤ batch) (padding : α) (part : Sample α → Array α) :
    Padded size batch padding (samples.map fun s => stretch size (part s))
      (stretched size batch padding part samples) := by
  refine padded_joinRows ?_ ?_ padding
  · intro row hrow
    rcases List.mem_map.mp hrow with ⟨s, -, rfl⟩
    exact size_stretch size (part s)
  · rw [List.length_map]
    exact hcount

theorem hasRow_stretched {samples : List (Sample α)} {size batch r : Nat} {s : Sample α}
    (hcount : samples.length ≤ batch) (padding : α) (part : Sample α → Array α)
    (hs : samples[r]? = some s) :
    HasRow size (stretched size batch padding part samples) r (stretch size (part s)) := by
  refine ⟨size_stretch size (part s), ?_⟩
  apply (padded_stretched hcount padding part).taken r
  rw [List.getElem?_map, hs, Option.map_some]

/-- Samples are packed as they are if and only if none of them is stretched. -/
theorem faithful_iff {size batch : Nat} {samples : List (Sample α)} {packed : Sample α}
    (h : pack size batch samples = .ok packed) (hcount : samples.length ≤ batch) :
    Faithful size samples packed ↔ ∀ s ∈ samples, ¬s.Stretches size := by
  rcases pack_stretched h with ⟨hpackable, hinputs, htargets⟩
  constructor
  · intro hfaithful s hs
    exact not_stretches_of_fits (hfaithful.fits hs)
  · intro hnone r s hs
    have hmem := List.mem_of_getElem? hs
    have hfits := fits_of_packable (hpackable s hmem) (hnone s hmem)
    have hkept : stretch size s.inputs = s.inputs ∧ stretch size s.targets = s.targets :=
      ⟨if_pos hfits.1, if_pos hfits.2⟩
    rw [hinputs, htargets]
    constructor
    · rw [← hkept.1]
      exact hasRow_stretched hcount _ _ hs
    · rw [← hkept.2]
      exact hasRow_stretched hcount _ _ hs

/-!
## Flushing them
-/

/--
A trainer that never trains on a reshaped sample at its next flush: if it completes, the rows that
were trained on are the samples, and if a sample does not fit, it fails and trains nothing.
-/
structure FlushesFaithfully (t : Trainer α τ) : Prop where
  completed : ∀ {loss : α} {t' : Trainer α τ}, flush.outcome t = (.ok (some loss), t') →
    ∃ packed, Ticked t.nextBatch packed loss (t.dequeue t.engine.batch) t' ∧
      Faithful t.engine.size t.nextBatch packed
  refused : (∃ s ∈ t.nextBatch, ¬s.Fits t.engine.size) →
    ∃ f t', flush.outcome t = (.error f, t') ∧ t'.engine.parameters = t.engine.parameters

theorem flush_ticks_of_mem {t t' : Trainer α τ} {r : Option α} {s : Sample α}
    (h : flush.outcome t = (.ok r, t')) (hs : s ∈ t.nextBatch) :
    ∃ loss packed, r = some loss ∧
      Ticked t.nextBatch packed loss (t.dequeue t.engine.batch) t' := by
  rcases flush_ticks h with ⟨hempty, -, -⟩ | ⟨-, -, hticked⟩
  · rw [nextBatch, hempty, List.take_nil] at hs
    cases hs
  · exact hticked

theorem parameters_of_flush_eq_error {t t' : Trainer α τ} {f : Fault}
    (h : flush.outcome t = (.error f, t')) : t'.engine.parameters = t.engine.parameters :=
  (flush_eq_error h).parameters

/--
Whatever has happened to the network since the samples were queued, a flush trains on them as they
are or fails without training, with one exception: a flush that completes although a sample of a
single component has to fill a row of another width.
-/
theorem flushesFaithfully_iff (t : Trainer α τ) :
    t.FlushesFaithfully ↔
      ¬(flush.succeeds t = true ∧ ∃ s ∈ t.nextBatch, s.Stretches t.engine.size) := by
  constructor
  · rintro hfaithful ⟨hsucceeds, s, hs, hstretches⟩
    rcases outcome_of_succeeds hsucceeds with ⟨r, hrun⟩
    rcases flush_ticks_of_mem hrun hs with ⟨loss, _, rfl, -⟩
    rcases hfaithful.completed hrun with ⟨packed, -, hrows⟩
    exact not_stretches_of_fits (hrows.fits hs) hstretches
  · intro hnone
    constructor
    · intro loss t' hrun
      rcases flush_ticks hrun with ⟨-, hnothing, -⟩ | ⟨-, -, loss', packed, hloss, hticked⟩
      · cases hnothing
      · cases hloss
        refine ⟨packed, hticked, (faithful_iff hticked.packs (length_nextBatch_le t)).mpr ?_⟩
        intro s hs hstretches
        exact hnone ⟨succeeds_of_ok (congrArg Prod.fst hrun), s, hs, hstretches⟩
    · rintro ⟨s, hs, hmisfit⟩
      cases hsucceeds : flush.succeeds t with
      | false =>
          rcases outcome_of_not_succeeds hsucceeds with ⟨f, hrun⟩
          exact ⟨f, _, hrun, parameters_of_flush_eq_error hrun⟩
      | true =>
          rcases outcome_of_succeeds hsucceeds with ⟨r, hrun⟩
          rcases flush_ticks_of_mem hrun hs with ⟨loss, packed, -, hticked⟩
          have hpackable := (pack_stretched hticked.packs).1 s hs
          have hstretches : s.Stretches t.engine.size := by
            by_contra hkept
            exact hmisfit (fits_of_packable hpackable hkept)
          exact absurd ⟨hsucceeds, s, hs, hstretches⟩ hnone

/-- A trainer on an engine of one neuron, for which a sample waits that it has accepted. -/
def narrow : Trainer Float32 Float :=
  (addSample (.ok #[1.0]) (.ok #[0.5])).after {
    engine := Engine.init.after <| Engine.create {} .trainable inPairs
      (.keyed (.ofList [Engine.linearNeuron "a" 0.0])) (.keyed .empty) none
    now := 0.0
    loop := .fresh }

/-- Once a neuron is added, the one component of the sample that waits fills a row of two. -/
theorem sample_stretched_narrow :
    narrow.waiting.map (fun s => (s.inputs.size, s.targets.size)) = [(1, 1)] ∧
      narrow.engine.size = 1 ∧
      ¬∀ n : Neuron, ((onEngine (Engine.addNeuron n)).after narrow).FlushesFaithfully := by
  refine ⟨by decide +kernel, by decide +kernel, fun h => ?_⟩
  have hfaithful := h (Engine.linearNeuron "b" 0.0)
  rw [flushesFaithfully_iff] at hfaithful
  apply hfaithful
  have hsome : ((onEngine (Engine.addNeuron (Engine.linearNeuron "b" 0.0))).after narrow
      ).nextBatch.any (fun s => s.inputs.size == 1) = true := by decide +kernel
  rcases List.any_eq_true.mp hsome with ⟨s, hs, hone⟩
  exact ⟨by decide +kernel, s, hs, by decide +kernel, Or.inl (beq_iff_eq.mp hone)⟩

end Trainer
end Plexus
