import Plexus.Proofs.Store.Writes

/-!
# A store in memory and a table, side by side

A store in memory and a table that start out empty and are given the same writes refuse the same
ones and list the same entries in the same order.  This asks for texts that can be encoded, for
parameters that are numbers, and for updates of entries that are there: a table can keep no other
texts and loses every other parameter, and only the store in memory adds what an update does not
find.
-/

namespace Plexus

open Attempt Parametric
open Value (IsText)

section Equivalence

variable {ε : Type} [Tabular ε] [Parametric ε]

/-- An entry whose texts can be encoded and whose parameter is a number. -/
structure CleanEntry (e : ε) : Prop where
  named : Named e
  encodable : Encodable e
  number : (parameter e).isNaN = false

/-!
## Writes to a store in memory
-/

namespace Write

/-- Whether the entry that a write updates is listed by a store. -/
def Addresses (s : Store ε) : Write ε → Prop
  | update e => ∃ es, s.getAll = .ok es ∧ ∃ d ∈ es, Identified.id d = Identified.id e
  | _ => True

omit [Parametric ε] in
theorem applied_update_of_split {xs ys : List ε} {d e : ε}
    (h : Distinct IsText (xs ++ d :: ys)) (hid : Identified.id d = Identified.id e) :
    (update e).applied (xs ++ d :: ys) = xs ++ e :: ys := by
  have hapart := List.pairwise_append.mp h.apart
  have hkeep : ∀ zs : List ε, (∀ c ∈ zs, (Identified.id c).same (Identified.id e) = false) →
      (update e).applied zs = zs := by
    intro zs hzs
    refine applied_update_of_absent ?_
    rw [repeats, List.any_eq_false]
    exact fun c hc => by rw [hzs c hc]; exact Bool.false_ne_true
  have hxs : (update e).applied xs = xs := by
    refine hkeep xs fun c hc => ?_
    rw [← hid]
    exact h.before c hc
  have hys : (update e).applied ys = ys := by
    refine hkeep ys fun c hc => ?_
    have hother := (List.pairwise_cons.mp hapart.2.1).1 c hc
    have hd : (Identified.id d).IsText := h.named d (by simp)
    have hc : (Identified.id c).IsText := h.named c (by simp [hc])
    rw [← Bool.not_eq_true, Value.same_iff_eq hc (hid ▸ hd), ← hid]
    intro heq
    rw [heq, (Value.idClass_isText.isKey _ hd).2] at hother
    cases hother
  have hself : (Identified.id d).same (Identified.id e) = true := by
    rw [hid]
    exact (Value.idClass_isText.isKey _ (hid ▸ h.named d (by simp))).2
  simp only [applied, List.map_append, List.map_cons, hself, if_true] at hxs hys ⊢
  rw [hxs, hys]

/-- A store in memory refuses to add an entry twice and carries out every other write. -/
theorem outcome_keyed {w : Write ε} {es : List ε} (h : Distinct IsText es) (hw : w.Named)
    (hstored : w.Addresses (.keyed (.ofList es))) :
    if w.repeats es then
      ∃ e, w = .create e ∧ w.perform.outcome (.keyed (.ofList es)) =
        (.error (.entityExists (Identified.id e)), .keyed (.ofList es))
    else
      w.perform.outcome (.keyed (.ofList es)) = (.ok (), .keyed (.ofList (w.applied es))) := by
  cases w with
  | create e =>
      have hkey := Value.idClass_isText.isKey _ (id_isText hw)
      cases hrepeats : (create e).repeats es with
      | true =>
          refine ⟨e, rfl, ?_⟩
          rw [perform, Store.create, Store.outcome_step, Store.created, KeyedStore.create, hkey.1,
            KeyedStore.has_ofList]
          rw [repeats] at hrepeats
          rw [hrepeats]
          rfl
      | false =>
          rw [repeats, List.any_eq_false] at hrepeats
          exact Store.outcome_create_of_new hkey fun d hd => Bool.not_eq_true _ ▸ hrepeats d hd
  | update e =>
      rcases hstored with ⟨listed, hlisted, d, hd, hid⟩
      rw [Store.getAll, KeyedStore.toList_ofList] at hlisted
      cases hlisted
      rcases List.append_of_mem hd with ⟨xs, ys, rfl⟩
      rw [applied_update_of_split h hid]
      exact Store.outcome_update Value.idClass_isText h hid.symm
  | delete id =>
      rcases hw with ⟨s, rfl⟩
      exact Store.outcome_delete rfl
  | clear => rfl

/-!
## Both stores
-/

/-- A write of a clean entry, or of an identifier that can be encoded. -/
def Clean : Write ε → Prop
  | create e | update e => CleanEntry e
  | delete id => id.IsPlain
  | clear => True

theorem Clean.named {w : Write ε} (h : w.Clean) : w.Named := by
  cases w with
  | create e | update e => exact CleanEntry.named h
  | delete id =>
      rcases h with ⟨s, hs, -⟩
      exact ⟨s, hs⟩
  | clear => exact trivial

theorem Clean.encodable {w : Write ε} (h : w.Clean) : w.Encodable := by
  cases w with
  | create e | update e => exact CleanEntry.encodable h
  | delete id => exact h
  | clear => exact trivial

/-- Writes that are clean, and that update only what a store lists at the time. -/
def Orderly (s : Store ε) : List (Write ε) → Prop
  | [] => True
  | w :: ws => w.Clean ∧ w.Addresses s ∧ Orderly (w.perform.after s) ws

end Write

/-- Two stores that list the same entries in the same order, all under their own identifiers. -/
def SameListing (s t : Store ε) : Prop :=
  ∃ es ds, s.getAll = .ok es ∧ t.getAll = .ok ds ∧ List.Forall₂ Alike es ds ∧
    (es.map Identified.id).Nodup

/-- What a write does to two stores: both carry it out, or both refuse it and stay as they are. -/
inductive SameStep (w : Write ε) (s t : Store ε) : Prop where
  | done {s' t' : Store ε} : w.perform.outcome s = (.ok (), s') →
      w.perform.outcome t = (.ok (), t') → SameStep w s t
  | refused {e : ε} : w = .create e →
      w.perform.outcome s = (.error (.entityExists (Identified.id e)), s) →
      w.perform.outcome t = (.error (.notUnique (Tabular.keyColumn ε)), t) → SameStep w s t

/-- Two stores that stay the same, write after write. -/
def InStep (s t : Store ε) : List (Write ε) → Prop
  | [] => SameListing s t
  | w :: ws => SameListing s t ∧ SameStep w s t ∧ InStep (w.perform.after s) (w.perform.after t) ws

/-- A store in memory and a table that hold the same entries, which can all be read back. -/
structure Mirrors (s t : Store ε) (es : List ε) : Prop where
  keyed : s = .keyed (.ofList es)
  table : ∃ rows, t = .table rows ∧ rows.Holds es
  numbers : ∀ e ∈ es, (parameter e).isNaN = false

namespace Mirrors

variable {s t : Store ε} {es : List ε} {w : Write ε}

theorem sameListing (h : Mirrors s t es) : SameListing s t := by
  rcases h with ⟨rfl, ⟨rows, rfl, hrows⟩, hnumbers⟩
  rcases hrows.getAll_of_numbers hnumbers with ⟨ds, hds, halike⟩
  refine ⟨es, ds, ?_, hds, halike, ?_⟩
  · rw [Store.getAll, KeyedStore.toList_ofList]
  · refine List.pairwise_map.mpr (hrows.distinct.apart.imp_of_mem fun hd he hapart heq => ?_)
    rw [heq, (Value.idClass_isText.isKey _ (hrows.distinct.named _ he)).2] at hapart
    cases hapart

theorem numbers_applied (h : ∀ e ∈ es, (parameter e).isNaN = false) (hw : w.Clean) :
    ∀ e ∈ w.applied es, (parameter e).isNaN = false := by
  intro e he
  cases w with
  | create d =>
      rcases List.mem_append.mp he with he | he
      · exact h e he
      · rw [List.mem_singleton.mp he]
        exact CleanEntry.number hw
  | update d =>
      rcases List.mem_map.mp he with ⟨c, hc, rfl⟩
      split
      · exact CleanEntry.number hw
      · exact h c hc
  | delete id => exact h e (List.mem_filter.mp he).1
  | clear => cases he

/-- One write: the stores do the same, and they hold the same entries after it. -/
theorem perform (h : Mirrors s t es) (hw : w.Clean) (hstored : w.Addresses s) :
    SameStep w s t ∧ ∃ es', Mirrors (w.perform.after s) (w.perform.after t) es' := by
  have hmirrors := h
  rcases h with ⟨rfl, ⟨rows, rfl, hrows⟩, hnumbers⟩
  have hkeyed := Write.outcome_keyed hrows.distinct hw.named hstored
  have htable := Write.outcome_table hrows (hw.named.expressible hw.encodable)
  cases hrepeats : w.repeats es with
  | true =>
      rw [hrepeats, if_pos rfl] at hkeyed htable
      rcases hkeyed with ⟨e, hcreate, hkeyed⟩
      rw [after_of_outcome hkeyed, after_of_outcome htable]
      exact ⟨.refused hcreate hkeyed htable, es, hmirrors⟩
  | false =>
      rw [hrepeats, if_neg Bool.false_ne_true] at hkeyed htable
      rcases htable with ⟨rows', htable, hrows'⟩
      rw [after_of_outcome hkeyed, after_of_outcome htable]
      exact ⟨.done hkeyed htable, w.applied es, rfl, ⟨rows', rfl, hrows'⟩,
        numbers_applied hnumbers hw⟩

/-- A run of writes, by induction on the writes. -/
theorem inStep {ws : List (Write ε)} (h : Mirrors s t es) (hws : Write.Orderly s ws) :
    InStep s t ws := by
  induction ws generalizing s t es with
  | nil => exact h.sameListing
  | cons w rest ih =>
      rcases hws with ⟨hw, hstored, hrest⟩
      rcases h.perform hw hstored with ⟨hstep, es', hes'⟩
      exact ⟨h.sameListing, hstep, ih hes' hrest⟩

end Mirrors

theorem mirrors_empty : Mirrors (.empty .keyed : Store ε) (.empty .table) [] where
  keyed := rfl
  table := ⟨.empty, rfl, TableStore.holds_empty⟩
  numbers := by
    intro e he
    cases he

end Equivalence

/--
A store in memory and a table that start out empty, of neurons or of synapses, stay the same,
write after write.
-/
theorem keyed_table_inStep :
    (∀ ws : List (Write Neuron), Write.Orderly (.empty .keyed) ws →
      InStep (.empty .keyed) (.empty .table) ws) ∧
    (∀ ws : List (Write Synapse), Write.Orderly (.empty .keyed) ws →
      InStep (.empty .keyed) (.empty .table) ws) :=
  ⟨fun _ h => mirrors_empty.inStep h, fun _ h => mirrors_empty.inStep h⟩

/-- Some neurons that come and go, one of them twice in a row. -/
def neuronWrites : List (Write Neuron) :=
  [.create ⟨.text "a", .input, -0.0, .text "linear"⟩,
    .create ⟨.text "b", .output, 0.5, .text "tanh"⟩,
    .create ⟨.text "a", .hidden, 1.0, .text "relu"⟩,
    .update ⟨.text "a", .hidden, 1.0, .text "relu"⟩,
    .delete (.text "a"),
    .create ⟨.text "a", .input, 2.0, .text "linear"⟩]

/-- A synapse that is added, overwritten and cleared away. -/
def synapseWrites : List (Write Synapse) :=
  [.create ⟨.text "s", .text "a", .text "b", 1.0⟩, .update ⟨.text "s", .text "b", .text "a", 0.5⟩,
    .clear]

theorem keyed_table_inStep_writes :
    (Write.Orderly (.empty .keyed) neuronWrites ∧
      InStep (.empty .keyed) (.empty .table) neuronWrites) ∧
    Write.Orderly (.empty .keyed) synapseWrites ∧
      InStep (.empty .keyed) (.empty .table) synapseWrites := by
  have ha : (Value.text "a").IsPlain := ⟨"a", rfl, by decide +kernel⟩
  have hb : (Value.text "b").IsPlain := ⟨"b", rfl, by decide +kernel⟩
  have hs : (Value.text "s").IsPlain := ⟨"s", rfl, by decide +kernel⟩
  have hneurons : Write.Orderly (.empty .keyed) neuronWrites := by
    refine ⟨⟨⟨⟨_, rfl⟩, .linear, rfl⟩, ha, by decide +kernel⟩, trivial, ?_⟩
    refine ⟨⟨⟨⟨_, rfl⟩, .tanh, rfl⟩, hb, by decide +kernel⟩, trivial, ?_⟩
    refine ⟨⟨⟨⟨_, rfl⟩, .relu, rfl⟩, ha, by decide +kernel⟩, trivial, ?_⟩
    refine ⟨⟨⟨⟨_, rfl⟩, .relu, rfl⟩, ha, by decide +kernel⟩,
      ⟨_, rfl, _, List.mem_cons_self, rfl⟩, ?_⟩
    refine ⟨ha, trivial, ?_⟩
    exact ⟨⟨⟨⟨_, rfl⟩, .linear, rfl⟩, ha, by decide +kernel⟩, trivial, trivial⟩
  have hsynapses : Write.Orderly (.empty .keyed) synapseWrites := by
    refine ⟨⟨⟨⟨_, rfl⟩, ⟨_, rfl⟩, ⟨_, rfl⟩⟩, ⟨hs, ha, hb⟩, by decide +kernel⟩, trivial, ?_⟩
    refine ⟨⟨⟨⟨_, rfl⟩, ⟨_, rfl⟩, ⟨_, rfl⟩⟩, ⟨hs, hb, ha⟩, by decide +kernel⟩,
      ⟨_, rfl, _, List.mem_cons_self, rfl⟩, ?_⟩
    exact ⟨trivial, trivial, trivial⟩
  exact ⟨⟨hneurons, keyed_table_inStep.1 _ hneurons⟩, hsynapses, keyed_table_inStep.2 _ hsynapses⟩

/-- A neuron whose identifier is a half on its own. -/
def halfNamed : Neuron := ⟨.text (String.ofList [Text.half 0xd800]), .input, 0.0, .text "linear"⟩

/-- Where a text cannot be encoded, only the store in memory does what it is asked for. -/
theorem half_refused_by_table_alone :
    halfNamed.Named ∧ halfNamed.bias.isNaN = false ∧
      ((Store.create halfNamed).outcome (.empty .keyed) = (.ok (), .keyed (.ofList [halfNamed])) ∧
        (Store.create halfNamed).outcome (.empty .table) =
          (.error .unencodableText, .empty .table)) ∧
      (Store.delete halfNamed.id).outcome (.empty .keyed : Store Neuron) = (.ok (), .empty .keyed) ∧
        (Store.delete halfNamed.id).outcome (.empty .table : Store Neuron) =
          (.error .unencodableText, .empty .table) := by
  have hhalf : Text.hasHalf (String.ofList [Text.half 0xd800]) = true := by decide +kernel
  refine ⟨⟨⟨_, rfl⟩, .linear, rfl⟩, by decide +kernel, ⟨rfl, ?_⟩, rfl, ?_⟩
  · rw [Store.create, Store.outcome_step, Store.empty, Store.created, TableStore.create]
    simp only [Tabular.encode, NeuronRow.ofNeuron, halfNamed, Value.columnText, hhalf]
    rfl
  · rw [Store.delete, Store.outcome_step, Store.empty, Store.deleted, TableStore.delete]
    simp only [halfNamed, Value.columnText, hhalf]
    rfl

end Plexus
