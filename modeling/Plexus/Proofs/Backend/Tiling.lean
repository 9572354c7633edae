import Plexus.Proofs.Backend.Allocation
import Plexus.Proofs.Backend.Reading

/-!
# Ticks without groups

A forward tick goes over groups of slots, and takes a shorter way through a group whose slots all
have the same activation function.  Its outputs show neither: whatever a dense backend was asked
for before, each of them follows from the parameters of its slot and from the input of its row, if
there is a network at all.
-/

namespace Plexus

/-!
## Groups
-/

theorem Workgroup.length_groups (size : Nat) : (groups size).length = count size := by
  rw [groups, List.length_map, List.length_range]

/-- What is done at once for a group is what is done one activation function at a time. -/
theorem Activation.apply_eq_foldl {α : Type} [Scalar α] {codes : List Activation} {z : List α}
    (h : codes.length = z.length) :
    apply codes z = all.foldl (fun out f => applyMasked f codes z out) z := by
  have hcodes : (codes.zip z).map Prod.fst = codes := List.map_fst_zip (Nat.le_of_eq h)
  have hz : (codes.zip z).map Prod.snd = z := List.map_snd_zip (Nat.le_of_eq h.symm)
  have happly := apply_map (codes.zip z) Prod.fst Prod.snd
  have hmasked := foldl_applyMasked_map all (codes.zip z) Prod.fst Prod.snd Prod.snd
  simp only [mem_all, if_true] at hmasked
  rw [hcodes, hz] at happly hmasked
  exact happly.trans hmasked.symm

namespace Backend

open Attempt

variable {α : Type} [Scalar α]

/-!
## A function for each slot
-/

/-- A backend whose network, if it has one, has an activation function for each slot. -/
def Coded (b : Backend α) : Prop :=
  ∀ a, b.arena = some a → (∃ rows : Nat, b.givenBatch = .whole rows) ∧ a.codes.size = b.size

section Coded

variable {b b' : Backend α}

omit [Scalar α] in
theorem Coded.withArena {settings : TrainingSettings} {a a' : Arena α} (hb : b.Coded)
    (hmachine : b.machine = .dense settings (.network a)) (hcodes : a'.codes = a.codes) :
    (b.withArena settings a').Coded := by
  intro a'' ha''
  cases ha''
  rcases hb a (arena_of_dense hmachine) with ⟨hrows, hsize⟩
  exact ⟨hrows, (congrArg Array.size hcodes).trans hsize⟩

omit [Scalar α] in
theorem Coded.withTraining {settings : TrainingSettings} {held : Holding α} (hb : b.Coded)
    (hmachine : b.machine = .dense settings held) (t : TrainingBuffers α) (stage : Stage) :
    Coded { b with machine := .dense settings (held.withTraining t), stage } := by
  intro a' ha'
  cases held with
  | network a =>
      cases ha'
      exact hb a (arena_of_dense hmachine)
  | nothing | deltas | training => cases ha'

omit [Scalar α] in
theorem coded_of_empty (h : b.arena = none) : b.Coded := by
  intro a ha
  rw [h] at ha
  cases ha

omit [Scalar α] in
theorem arena_of_unload (h : b'.machine = b.machine.unload) : b'.arena = none := by
  rw [arena, Backend.held, h]
  cases b.machine with
  | dense settings held => rfl
  | graph claims built => rfl

theorem Refill.coded (h : b.Refill b') (hb : b.Coded) : b'.Coded := by
  cases h with
  | same => exact hb
  | forward hmachine | deltas hmachine | train hmachine => exact hb.withArena hmachine rfl
  | targets hmachine | rate hmachine => exact hb.withTraining hmachine _ b.stage

theorem Primed.coded (h : b.Primed b') (hb : b.Coded) : b'.Coded := by
  cases h with
  | same => exact hb
  | @deltas settings held hmachine hstage cells precision =>
      intro a ha
      refine hb a ?_
      rw [arena_of_dense hmachine, ← arena?_withDeltas held cells precision]
      exact ha
  | buffers hmachine => exact hb.withTraining hmachine _ .trainable

omit [Scalar α] in
theorem coded_configure (settings : TrainingSettings) (hb : b.Coded) :
    (b.configure settings).Coded := by
  unfold configure
  split
  · next hmachine =>
    intro a ha
    exact hb a ((arena_of_dense hmachine).trans ha)
  · exact hb

omit [Scalar α] in
theorem coded_init (hb : b.Coded) : (init.after b).Coded := by
  rcases init_outcomes b with ⟨f, hrun⟩ | ⟨device, hrun⟩
  · rw [after_of_outcome hrun]
    exact hb
  · rw [after_of_outcome hrun]
    exact hb

theorem coded_prepare (hsound : b.Sound) (hb : b.Coded) (size : Value) (weights biases : Operand α)
    (batch : Except Fault Number) (activations : Except Fault (Option (List Value))) :
    ((prepare size weights biases batch activations).after b).Coded := by
  rcases prepare_cases_of_sound hsound size weights biases batch activations with
    ⟨f, hrun, -⟩ | ⟨n, f, -, hrun⟩ | ⟨n, settings, rows, hshaped, -, hrun⟩
  · rw [after_of_outcome hrun]
    exact hb
  · rw [after_of_outcome hrun]
    exact coded_of_empty (arena_of_unload rfl)
  · rw [after_of_outcome hrun]
    intro a ha
    cases ha
    exact ⟨⟨rows, rfl⟩, List.size_toArray.trans hshaped.codes⟩

theorem coded_perform (hsound : b.Sound) (hb : b.Coded) (r : Request α) :
    (r.perform.after b).Coded := by
  by_cases hfills : r.Fills
  · exact (refill_perform hfills b).coded hb
  cases r with
  | call c =>
      cases c with
      | init => exact after_bind_pure init _ b ▸ coded_init hb
      | prepare size weights biases batch activations =>
          exact after_bind_pure (prepare size weights biases batch activations) _ b ▸
            coded_prepare hsound hb size weights biases batch activations
      | forward | readParameters => exact absurd trivial hfills
      | release => exact coded_of_empty (arena_of_unload rfl)
  | prepareTraining targets rate => exact (primed_perform targets rate b).coded hb
  | setTargets | setLearningRate | trainTick => exact absurd trivial hfills
  | configure settings => exact coded_configure settings hb

theorem coded_run (hsound : b.Sound) (hb : b.Coded) (rs : List (Request α)) :
    (run rs b).Coded := by
  induction rs using List.reverseRecOn with
  | nil => exact hb
  | append_singleton rs r ih =>
      rw [run_concat]
      exact coded_perform (sound_run hsound rs) ih r

end Coded

/-!
## The plain formula
-/

/--
A backend that answers an input by the plain formula: each output is the activation function of
its slot, applied to the bias of the slot and the inner product of the weights into the slot with
the input of the row.  The parameters are those that the backend gives when it is asked for them.
-/
structure Plain (b : Backend α) (xs : Array α) (a : Arena α) (out : Array α) : Prop where
  arena : b.arena = some a
  codes : a.codes.size = b.size
  parameters : readParameters.outcome b = (.ok (a.weights, a.biases), b)
  answer : ((forward (.ok xs)).outcome b).1 = .ok out
  size : out.size = b.size * b.batch
  cells : ∀ r < b.batch, ∀ t < b.size, out[r * b.size + t]? =
    some (Scalar.activate (a.codeAt t)
      (Scalar.add (Scalar.dot b.size xs (r * b.size) a.weights (t * b.size))
        (Scalar.cell a.biases t)))

theorem plain_of_dense {b : Backend α} {settings : TrainingSettings} {a : Arena α}
    {xs : Array α} (hmachine : b.machine = .dense settings (.network a)) (hcoded : b.Coded)
    (hstage : .compiled ≤ b.stage) (hfits : b.fits xs = true) :
    b.Plain xs a (a.forward b.size b.batch xs).output where
  arena := arena_of_dense hmachine
  codes := (hcoded a (arena_of_dense hmachine)).2
  parameters := by
    rw [readParameters, outcome_bind_of_ok (outcome_require_of_le hstage _), outcome_get_bind,
      hmachine]
    rfl
  answer :=
    congrArg Prod.fst (outcome_forward_dense (Nat.not_lt.mpr hstage) hfits hmachine)
  size := Arena.size_output_forward a b.size b.batch xs
  cells := fun _ hr _ ht => Arena.getElem?_output_forward a xs hr ht

/--
Whatever a dense backend was asked for, from the stage on in which there is a network: its groups
cover the slots once and in order, and what is applied at once to a group is what is applied to its
slots.  It answers an input that fits by the plain formula if and only if its buffers have not been
upset, or have been set anew since.
-/
theorem forward_plain_iff_restored (host : Host) (requested : Value) (settings : TrainingSettings)
    (rs : List (Request α)) {b : Backend α} (hb : b = run rs (dense host requested settings))
    (hstage : .compiled ≤ b.stage) {xs : Array α} (hfits : b.fits xs = true) :
    ((Workgroup.groups b.size).flatMap Workgroup.slots = List.range b.size ∧
      b.workgroupCount = (Workgroup.groups b.size).length) ∧
    (∀ (codes : List Activation) (z : List α), codes.length = z.length →
      Activation.apply codes z =
        Activation.all.foldl (fun out f => Activation.applyMasked f codes z out) z) ∧
    ((∃ a out, b.Plain xs a out) ↔ Restored rs (dense host requested settings : Backend α)) := by
  refine ⟨⟨Workgroup.flatMap_slots_groups b.size, (Workgroup.length_groups b.size).symm⟩,
    fun codes z => Activation.apply_eq_foldl, ?_⟩
  have hstart := sound_dense (α := α) host requested settings
  have hsound : b.Sound := hb ▸ sound_run hstart rs
  have hcoded : b.Coded := hb ▸ coded_run hstart (coded_of_empty rfl) rs
  rw [← roles_run_iff hstart rfl rs, ← hb, roles_iff_of_compiled hsound hstage]
  rcases hsound.dense with ⟨settings', held, hmachine⟩
  rw [buffers_of_dense hmachine, Holding.weights_mem_roles]
  constructor
  · rintro ⟨a, out, hplain⟩
    have ha := hplain.arena
    rw [arena_of_dense hmachine] at ha
    cases held with
    | network a' => exact ⟨a', rfl⟩
    | nothing | deltas | training => cases ha
  · rintro ⟨a, rfl⟩
    exact ⟨a, _, plain_of_dense hmachine hcoded hstage hfits⟩

/-- A network of one slot, which gives what it sums up, answers by the formula. -/
theorem forward_plain_iff_restored_single :
    ∃ a out, single.Plain #[3.0] a out ∧ Restored setUp (dense {} (.text "cpu") .default) := by
  have hstage : .compiled ≤ single.stage := by decide +kernel
  have hfits : single.fits #[3.0] = true := by decide +kernel
  have hroles : single.buffers = single.stage.roles := by decide +kernel
  have hrestored := (roles_run_iff (sound_dense {} (.text "cpu") .default) rfl setUp).mp hroles
  rcases (forward_plain_iff_restored {} (.text "cpu") .default setUp rfl hstage hfits).2.2.mpr
    hrestored with ⟨a, out, hplain⟩
  exact ⟨a, out, hplain, hrestored⟩

/-- The backend after a network without slots has found no room in place of an earlier one. -/
def crowded : Backend Float32 := (crowding (.whole (2 ^ 31))).perform.after single

/-- A network that found no room has left the stage of the earlier one, and no network to run. -/
theorem not_plain_crowded :
    crowded.stage = .compiled ∧ crowded.fits #[] = true ∧
      ((forward (.ok #[])).outcome crowded).1 =
        .error (.missingKey (.text BufferRole.input.name)) ∧
      ¬∃ a out, crowded.Plain #[] a out := by
  have harena : crowded.arena.isNone = true := by decide +kernel
  refine ⟨by decide +kernel, by decide +kernel, ?_, ?_⟩
  · rfl
  · rintro ⟨a, out, hplain⟩
    rw [hplain.arena] at harena
    cases harena

end Backend
end Plexus
