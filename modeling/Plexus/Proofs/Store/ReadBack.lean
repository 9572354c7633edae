import Plexus.Proofs.Store.Writes

/-!
# Reading back what a table has taken

A table keeps each entry that it has taken as a row, and all rows are read at once.  A row whose
parameter was not a number cannot be read, so one such entry hides all others for as long as it is
kept.  An update of what is not there is carried out and writes nothing.
-/

namespace Plexus

open Attempt Parametric

section ReadBack

variable {ε : Type} [Tabular ε] [Parametric ε]

/-- The entries that writes leave on a list, of those writes that a store carries out. -/
def Write.kept (s : Store ε) (es : List ε) : List (Write ε) → List ε
  | [] => es
  | w :: ws =>
      kept (w.perform.after s) (if w.perform.succeeds s then w.applied es else es) ws

/-- Whether the entries of a store can be read, and an entry is one of them. -/
def ReadsBack (e : ε) (s : Store ε) : Prop := ∃ ds, s.getAll = .ok ds ∧ ∃ d ∈ ds, Alike e d

namespace TableStore

variable {t : TableStore ε} {es : List ε} {w : Write ε}

theorem Holds.perform_of_ok (h : t.Holds es) (hw : w.Named) {s : Store ε}
    (hrun : w.perform.outcome (.table t) = (.ok (), s)) :
    ∃ t', s = .table t' ∧ t'.Holds (w.applied es) := by
  have houtcome := Write.outcome_table h (hw.expressible_of_ok hrun)
  split at houtcome
  · rw [hrun] at houtcome
    cases houtcome
  · rcases houtcome with ⟨t', htable, ht'⟩
    rw [hrun] at htable
    exact ⟨t', congrArg Prod.snd htable, ht'⟩

theorem Holds.perform (h : t.Holds es) (hw : w.Named) :
    ∃ t', w.perform.after (.table t) = .table t' ∧
      t'.Holds (if w.perform.succeeds (.table t) then w.applied es else es) := by
  cases hsucceeds : w.perform.succeeds (.table t) with
  | true =>
      rcases outcome_of_succeeds hsucceeds with ⟨_, hrun⟩
      exact h.perform_of_ok hw hrun
  | false =>
      rcases outcome_of_not_succeeds hsucceeds with ⟨f, hrun⟩
      exact ⟨t, Write.after_of_error hrun, h⟩

/-- A run of writes, by induction on the writes. -/
theorem Holds.run {ws : List (Write ε)} (h : t.Holds es) (hws : ∀ w ∈ ws, w.Named) :
    ∃ t', Write.run (.table t) ws = .table t' ∧ t'.Holds (Write.kept (.table t) es ws) := by
  induction ws generalizing t es with
  | nil => exact ⟨t, rfl, h⟩
  | cons w rest ih =>
      rcases h.perform (hws w List.mem_cons_self) with ⟨t', hafter, ht'⟩
      rw [Write.run, List.foldl_cons, Write.kept, hafter]
      exact ih ht' fun v hv => hws v (List.mem_cons_of_mem w hv)

end TableStore

/-- What is in one of two lists that are related item by item has a counterpart in the other. -/
theorem exists_of_forall₂ {α β : Type} {R : α → β → Prop} {as : List α} {bs : List β} {a : α}
    (h : List.Forall₂ R as bs) (ha : a ∈ as) : ∃ b ∈ bs, R a b := by
  induction h with
  | nil => cases ha
  | @cons c b as bs hcb _ ih =>
      rcases List.mem_cons.mp ha with rfl | ha
      · exact ⟨b, List.mem_cons_self, hcb⟩
      · rcases ih ha with ⟨d, hd, hR⟩
        exact ⟨d, List.mem_cons_of_mem b hd, hR⟩

namespace TableStore

variable {t : TableStore ε} {es : List ε} {e : ε}

/-- A table can be read exactly if all entries that it keeps have numbers for their parameters. -/
theorem Holds.readable_iff (h : t.Holds es) :
    (∃ ds, t.getAll = .ok ds) ↔ ∀ d ∈ es, (parameter d).isNaN = false := by
  constructor
  · rintro ⟨ds, hds⟩ d hd
    rw [← Bool.not_eq_true]
    intro hnan
    rw [h.getAll_of_nan hd hnan] at hds
    cases hds
  · intro hnumbers
    rcases h.getAll_of_numbers hnumbers with ⟨ds, hds, -⟩
    exact ⟨ds, hds⟩

theorem Holds.readsBack_of_mem (h : t.Holds es) (hnumbers : ∀ d ∈ es, (parameter d).isNaN = false)
    (he : e ∈ es) :
    ReadsBack e (.table t) := by
  rcases h.getAll_of_numbers hnumbers with ⟨ds, hds, halike⟩
  exact ⟨ds, hds, exists_of_forall₂ halike he⟩

/-- What is read back is kept under its identifier. -/
theorem Holds.id_mem_of_readsBack (h : t.Holds es) (hread : ReadsBack e (.table t)) :
    Identified.id e ∈ es.map Identified.id := by
  rcases hread with ⟨ds, hds, d, hd, halike⟩
  rcases h.getAll_of_numbers (h.readable_iff.mp ⟨ds, hds⟩) with ⟨ds', hds', hlist⟩
  rw [Store.getAll, hds'] at hds
  cases hds
  rcases exists_of_forall₂ hlist.flip hd with ⟨c, hc, hcd⟩
  rw [← id_of_alike halike, id_of_alike hcd]
  exact List.mem_map_of_mem hc

end TableStore

/-!
## After a write
-/

/-- A write that adds an entry, or that replaces one that is kept. -/
inductive Write.Lands (e : ε) (es : List ε) : Write ε → Prop where
  | create : Lands e es (.create e)
  | update : Identified.id e ∈ es.map Identified.id → Lands e es (.update e)

variable {t : TableStore ε} {es : List ε} {e : ε} {w : Write ε}

omit [Parametric ε] in
theorem Write.mem_applied (hes : ∀ d ∈ es, (Identified.id d).IsText) (h : w.Lands e es) :
    e ∈ w.applied es := by
  cases h with
  | create => exact List.mem_append_right es List.mem_cons_self
  | update hid =>
      rcases List.mem_map.mp hid with ⟨d, hd, hid⟩
      refine List.mem_map.mpr ⟨d, hd, if_pos ?_⟩
      rw [← hid]
      exact (Value.idClass_isText.isKey _ (hes d hd)).2

/--
What a table has taken is read back exactly if all that it keeps can be read and the write has
landed.
-/
theorem TableStore.Holds.readsBack_iff (h : t.Holds es) (hw : w.Named)
    (hwrites : w = .create e ∨ w = .update e) {s : Store ε}
    (hrun : w.perform.outcome (.table t) = (.ok (), s)) :
    ReadsBack e s ↔ (∀ d ∈ w.applied es, (parameter d).isNaN = false) ∧ w.Lands e es := by
  rcases h.perform_of_ok hw hrun with ⟨t', rfl, ht'⟩
  constructor
  · intro hread
    rcases hread with ⟨ds, hds, hmem⟩
    refine ⟨ht'.readable_iff.mp ⟨ds, hds⟩, ?_⟩
    rcases hwrites with rfl | rfl
    · exact .create
    · have hid := ht'.id_mem_of_readsBack ⟨ds, hds, hmem⟩
      rw [Write.map_id_applied_update h.distinct.named] at hid
      exact .update hid
  · rintro ⟨hnumbers, hlands⟩
    exact ht'.readsBack_of_mem hnumbers (Write.mem_applied h.distinct.named hlands)

end ReadBack

/--
After any writes to a table of neurons or of synapses that starts out empty, an entry that was
taken is read back exactly if every entry that is kept has a number for its parameter, and the
entry was added or has replaced one that was there.
-/
theorem written_readsBack_iff {ws : List (Write Neuron)} {vs : List (Write Synapse)}
    {w : Write Neuron} {v : Write Synapse} {n : Neuron} {e : Synapse}
    (hws : ∀ u ∈ ws, u.Named) (hvs : ∀ u ∈ vs, u.Named) (hw : w.Named) (hv : v.Named)
    (hneuron : w = .create n ∨ w = .update n) (hsynapse : v = .create e ∨ v = .update e) :
    (∀ s, w.perform.outcome (Write.run (.empty .table) ws) = (.ok (), s) →
      (ReadsBack n s ↔
        (∀ d ∈ w.applied (Write.kept (.empty .table) [] ws), d.bias.isNaN = false) ∧
          w.Lands n (Write.kept (.empty .table) [] ws))) ∧
    (∀ s, v.perform.outcome (Write.run (.empty .table) vs) = (.ok (), s) →
      (ReadsBack e s ↔
        (∀ d ∈ v.applied (Write.kept (.empty .table) [] vs), d.weight.isNaN = false) ∧
          v.Lands e (Write.kept (.empty .table) [] vs))) := by
  constructor
  · intro s hrun
    rcases TableStore.holds_empty.run hws with ⟨t, ht, hholds⟩
    rw [show Write.run (.empty .table) ws = .table t from ht] at hrun
    exact hholds.readsBack_iff hw hneuron hrun
  · intro s hrun
    rcases TableStore.holds_empty.run hvs with ⟨t, ht, hholds⟩
    rw [show Write.run (.empty .table) vs = .table t from ht] at hrun
    exact hholds.readsBack_iff hv hsynapse hrun

/-- A neuron with some bias. -/
def neuronOf (bias : Float) : Neuron := ⟨.text "a", .hidden, bias, .text "tanh"⟩

/-- A synapse with some weight. -/
def synapseOf (weight : Float) : Synapse := ⟨.text "s", .text "a", .text "b", weight⟩

theorem neuronOf_named (x : Float) : (neuronOf x).Named := ⟨⟨_, rfl⟩, .tanh, rfl⟩

theorem synapseOf_named (x : Float) : (synapseOf x).Named := ⟨⟨_, rfl⟩, ⟨_, rfl⟩, ⟨_, rfl⟩⟩

/-- An infinite bias takes the place of one that is not a number; a lone update writes nothing. -/
theorem written_readsBack_iff_overwritten :
    (∃ s, (Write.update (neuronOf (1.0 / 0.0))).perform.outcome
        (Write.run (.empty .table) [.create (neuronOf (0.0 / 0.0))]) = (.ok (), s) ∧
      ReadsBack (neuronOf (1.0 / 0.0)) s) ∧
    ∃ s, (Write.update (synapseOf 0.5)).perform.outcome (Write.run (.empty .table) []) =
        (.ok (), s) ∧
      ¬ReadsBack (synapseOf 0.5) s := by
  have hws : ∀ u ∈ [Write.create (neuronOf (0.0 / 0.0))], u.Named := by
    intro u hu
    rw [List.mem_singleton.mp hu]
    exact neuronOf_named _
  have hvs : ∀ u ∈ ([] : List (Write Synapse)), u.Named := fun u hu => absurd hu List.not_mem_nil
  have hkept : Write.kept (.empty .table) [] [Write.create (neuronOf (0.0 / 0.0))] =
      [neuronOf (0.0 / 0.0)] := rfl
  have happlied : (Write.update (neuronOf (1.0 / 0.0))).applied [neuronOf (0.0 / 0.0)] =
      [neuronOf (1.0 / 0.0)] := by
    simp [Write.applied, Identified.id, neuronOf]
  rcases written_readsBack_iff (w := .update (neuronOf (1.0 / 0.0)))
    (v := .update (synapseOf 0.5)) hws hvs (neuronOf_named _) (synapseOf_named _) (Or.inr rfl)
    (Or.inr rfl) with ⟨hneuron, hsynapse⟩
  constructor
  · refine ⟨_, rfl, (hneuron _ rfl).mpr ?_⟩
    rw [hkept, happlied]
    constructor
    · intro d hd
      rw [List.mem_singleton.mp hd]
      decide +kernel
    · exact .update List.mem_cons_self
  · refine ⟨_, rfl, fun hread => ?_⟩
    rcases (hsynapse _ rfl).mp hread with ⟨-, hlands⟩
    cases hlands with
    | update hid => cases hid

/-- A table takes an entry that keeps it from being read. -/
theorem nan_taken_and_unreadable :
    (neuronOf (0.0 / 0.0)).Named ∧
      ∃ s, (Store.create (neuronOf (0.0 / 0.0))).outcome (.empty .table) = (.ok (), s) ∧
        s.getAll = .error .mistyped := by
  have hcell : realCell (0.0 / 0.0) = none := realCell_of_nan (by decide +kernel)
  refine ⟨neuronOf_named _, _, rfl, ?_⟩
  show (Neuron.make (.text "a") (.text "hidden") (realValue (realCell (0.0 / 0.0)))
    (.text "tanh") >>= fun n => pure [n]) = _
  rw [hcell]
  rfl

end Plexus
