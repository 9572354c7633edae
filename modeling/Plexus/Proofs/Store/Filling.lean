import Plexus.Proofs.Store.Writes

/-!
# Filling a store

Entries are put into an empty store one after the other.  A keyed store stops at the first entry
whose identifier is taken, and a table does so too unless it has met a text before that cannot be
encoded.  If all identifiers are different, then neither has a reason to refuse an entry for its
identifier.
-/

namespace Plexus

open Attempt
open Value (IsText idClass_isText)

variable {ε : Type} [Tabular ε] {es : List ε} {e : ε}

/-- A keyed store refuses an entry whose identifier is taken, and no other. -/
theorem KeyedStore.create_cases (hes : ∀ d ∈ es, (Identified.id d).IsText)
    (he : (Identified.id e).IsText) :
    Identified.id e ∈ es.map Identified.id ∧
        (ofList es).create e = .error (.entityExists (Identified.id e)) ∨
      Identified.id e ∉ es.map Identified.id ∧
        (ofList es).create e = .ok (ofList (es ++ [e])) := by
  have hkey := idClass_isText.isKey _ he
  by_cases hmem : Identified.id e ∈ es.map Identified.id
  · refine Or.inl ⟨hmem, ?_⟩
    rcases List.mem_map.mp hmem with ⟨d, hd, hid⟩
    have hhas : (ofList es).has (Identified.id e) = true := by
      rw [has_ofList, List.any_eq_true]
      exact ⟨d, hd, hid ▸ hkey.2⟩
    simp only [create, hkey.1, hhas, Bool.not_true, Bool.false_eq_true, if_false, if_true]
  · refine Or.inr ⟨hmem, create_of_new hkey fun d hd => ?_⟩
    rw [Bool.eq_false_iff]
    intro hsame
    rw [Value.eq_of_text_same (hes d hd) hsame] at hmem
    exact hmem (List.mem_map_of_mem hd)

theorem nodup_map_concat {β γ : Type} {f : β → γ} {bs : List β} {b : β} (h : (bs.map f).Nodup)
    (hnew : f b ∉ bs.map f) : ((bs ++ [b]).map f).Nodup := by
  rw [List.map_append, List.map_singleton, List.nodup_append_comm]
  exact List.nodup_cons.mpr ⟨hnew, h⟩

theorem not_nodup_map_of_mem {β γ : Type} {f : β → γ} {before after : List β} {b : β}
    (h : f b ∈ before.map f) : ¬((before ++ b :: after).map f).Nodup := by
  rw [List.map_append, List.map_cons]
  intro hnodup
  exact (List.nodup_append.mp hnodup).2.2 _ h _ List.mem_cons_self rfl

namespace Store

/-- A keyed store that holds just some entries, whose identifiers are different texts. -/
structure Keyed (es : List ε) (s : Store ε) : Prop where
  store : s = .keyed (.ofList es)
  texts : ∀ e ∈ es, (Identified.id e).IsText
  nodup : (es.map Identified.id).Nodup

theorem keyed_empty : Keyed ([] : List ε) (.keyed .empty) :=
  ⟨rfl, fun _ he => absurd he List.not_mem_nil, List.nodup_nil⟩

/-- What a keyed store answers to an entry. -/
theorem Keyed.created_cases {s : Store ε} (h : Keyed es s) (he : (Identified.id e).IsText) :
    Identified.id e ∈ es.map Identified.id ∧
        s.created e = .error (.entityExists (Identified.id e)) ∨
      ∃ t, Keyed (es ++ [e]) t ∧ s.created e = .ok t := by
  rcases h with ⟨rfl, htext, hnodup⟩
  rcases KeyedStore.create_cases htext he with ⟨hmem, hf⟩ | ⟨hnew, hok⟩
  · refine Or.inl ⟨hmem, ?_⟩
    rw [created, hf]
    rfl
  · refine Or.inr ⟨.keyed (.ofList (es ++ [e])), ⟨rfl, ?_, nodup_map_concat hnodup hnew⟩, ?_⟩
    · exact List.forall_mem_append.mpr ⟨htext, List.forall_mem_singleton.mpr he⟩
    · rw [created, hok]
      rfl

/-- A keyed store takes all entries, or those before the first whose identifier is taken. -/
theorem forM_create_keyed_cases (hes : ∀ e ∈ es, (Identified.id e).IsText) :
    (es.map Identified.id).Nodup ∧
        (es.forM create).outcome (.keyed .empty) = (.ok (), .keyed (.ofList es)) ∨
      ∃ before e after, es = before ++ e :: after ∧
        Identified.id e ∈ before.map Identified.id ∧
        (es.forM create).outcome (.keyed .empty) =
          (.error (.entityExists (Identified.id e)), .keyed (.ofList before)) := by
  have hstep : ∀ done e s t, e ∈ es → Keyed done s → s.created e = .ok t →
      Keyed (done ++ [e]) t := by
    intro done e s t he hs hcreate
    rcases hs.created_cases (hes e he) with ⟨-, hf⟩ | ⟨t', ht', hok⟩
    · rw [hf] at hcreate
      cases hcreate
    · rw [hok] at hcreate
      cases hcreate
      exact ht'
  rcases forM_create_induction hstep keyed_empty with
    ⟨t, hrun, ht⟩ | ⟨before, e, after, f, t, rfl, ht, hrefused, hrun⟩
  · rw [ht.store] at hrun
    exact Or.inl ⟨ht.nodup, hrun⟩
  · refine Or.inr ⟨before, e, after, rfl, ?_⟩
    rcases ht.created_cases (hes e (by simp)) with ⟨hmem, hf⟩ | ⟨t', -, hok⟩
    · rw [hf] at hrefused
      cases hrefused
      rw [ht.store] at hrun
      exact ⟨hmem, hrun⟩
    · rw [hok] at hrefused
      cases hrefused

variable [Parametric ε]

open Parametric

/-- A table that holds some entries. -/
def Tabled (es : List ε) (s : Store ε) : Prop := ∃ t : TableStore ε, s = .table t ∧ t.Holds es

theorem tabled_empty : Tabled ([] : List ε) (.table .empty) :=
  ⟨.empty, rfl, TableStore.holds_empty⟩

/-- A table refuses an entry whose row cannot be made, or whose identifier is taken. -/
theorem Tabled.created_cases {s : Store ε} (h : Tabled es s) (he : Named e) :
    (∃ f, Tabular.encode e = .error f ∧ s.created e = .error f) ∨
      Identified.id e ∈ es.map Identified.id ∧
        s.created e = .error (.notUnique (Tabular.keyColumn ε)) ∨
      ∃ t, Tabled (es ++ [e]) t ∧ s.created e = .ok t := by
  rcases h with ⟨t, rfl, ht⟩
  cases hrow : Tabular.encode e with
  | error f =>
      refine Or.inl ⟨f, rfl, ?_⟩
      rw [created, TableStore.create, hrow]
      rfl
  | ok row =>
      have hcreate := ht.create (⟨he, hrow⟩ : RowOf row e)
      rw [created, hcreate]
      split
      · next hrepeats =>
        refine Or.inr (Or.inl ⟨?_, rfl⟩)
        rw [Write.repeats, List.any_eq_true] at hrepeats
        rcases hrepeats with ⟨d, hd, hsame⟩
        rw [Value.eq_of_text_same (ht.distinct.named d hd) hsame]
        exact List.mem_map_of_mem hd
      · next hnew =>
        have hnext := ht.snoc ⟨he, hrow⟩ (Bool.not_eq_true _ ▸ hnew)
        exact Or.inr (Or.inr ⟨_, ⟨_, rfl, hnext⟩, rfl⟩)

/--
A table takes all entries, or those before the first that has no row or whose identifier is
taken.
-/
theorem forM_create_table_cases (hes : ∀ e ∈ es, Named e) :
    (es.map Identified.id).Nodup ∧
        (∃ t, (es.forM create).outcome (.table .empty) = (.ok (), .table t) ∧ t.Holds es) ∨
      ∃ before e after f t, es = before ++ e :: after ∧
        (es.forM create).outcome (.table .empty) = (.error f, .table t) ∧
        (Tabular.encode e = .error f ∨ Identified.id e ∈ before.map Identified.id) := by
  have hstep : ∀ done e s t, e ∈ es → Tabled done s → s.created e = .ok t →
      Tabled (done ++ [e]) t := by
    intro done e s t he hs hcreate
    rcases hs.created_cases (hes e he) with ⟨f, -, hf⟩ | ⟨-, hf⟩ | ⟨t', ht', hok⟩
    · rw [hf] at hcreate
      cases hcreate
    · rw [hf] at hcreate
      cases hcreate
    · rw [hok] at hcreate
      cases hcreate
      exact ht'
  rcases forM_create_induction hstep tabled_empty with
    ⟨_, hrun, t, rfl, ht⟩ | ⟨before, e, after, f, _, rfl, htable, hrefused, hrun⟩
  · exact Or.inl ⟨ht.distinct.nodup_ids idClass_isText, t, hrun, ht⟩
  · have hcases := htable.created_cases (hes e (by simp))
    rcases htable with ⟨t, rfl, -⟩
    refine Or.inr ⟨before, e, after, f, t, rfl, hrun, ?_⟩
    rcases hcases with ⟨g, hrow, hg⟩ | ⟨hmem, -⟩ | ⟨t', -, hok⟩
    · rw [hg] at hrefused
      cases hrefused
      exact Or.inl hrow
    · exact Or.inr hmem
    · rw [hok] at hrefused
      cases hrefused

end Store

/-!
## Entries that can be stored
-/

/-- Entries that an empty store takes one after the other, finding no identifier taken. -/
structure Storable [Parametric ε] (es : List ε) : Prop where
  keyed : (es.forM Store.create).outcome (.keyed .empty) = (.ok (), .keyed (.ofList es))
  table : Avoids .integrity ((es.forM Store.create).outcome (.table .empty)).1

theorem Value.columnText_avoids_integrity {v : Value} (h : v.IsText) :
    Avoids .integrity v.columnText := by
  rcases Value.columnText_of_isText h with hf | ⟨s, -, hok⟩
  · rw [hf]
    exact avoids_error (by decide)
  · rw [hok]
    exact avoids_ok _

theorem Neuron.encode_avoids_integrity {n : Neuron} (h : n.Named) :
    Avoids .integrity (Tabular.encode n) := by
  rcases h.activation with ⟨f, hf⟩
  have htext := (Activation.columnText_of_ofValue hf).1
  exact (Value.columnText_avoids_integrity h.id).bind fun _ =>
    (Value.columnText_avoids_integrity htext).bind fun _ => avoids_ok _

theorem Synapse.encode_avoids_integrity {s : Synapse} (h : s.Named) :
    Avoids .integrity (Tabular.encode s) :=
  (Value.columnText_avoids_integrity h.id).bind fun _ =>
    (Value.columnText_avoids_integrity h.source).bind fun _ =>
      (Value.columnText_avoids_integrity h.target).bind fun _ => avoids_ok _

variable [Parametric ε]

/-- Entries can be stored exactly if their identifiers are different. -/
theorem storable_iff (hes : ∀ e ∈ es, Parametric.Named e)
    (hrow : ∀ e ∈ es, Avoids .integrity (Tabular.encode e)) :
    Storable es ↔ (es.map Identified.id).Nodup := by
  have htext : ∀ e ∈ es, (Identified.id e).IsText := fun e he => Parametric.id_isText (hes e he)
  have hkeyed := Store.forM_create_keyed_cases htext
  constructor
  · intro h
    rcases hkeyed with ⟨hnodup, -⟩ | ⟨_, _, _, -, -, hrun⟩
    · exact hnodup
    · rw [h.keyed] at hrun
      cases hrun
  · intro hnodup
    constructor
    · rcases hkeyed with ⟨-, hrun⟩ | ⟨before, e, after, rfl, hmem, -⟩
      · exact hrun
      · exact absurd hnodup (not_nodup_map_of_mem hmem)
    · rcases Store.forM_create_table_cases hes with
        ⟨-, t, hrun, -⟩ | ⟨before, e, after, f, t, rfl, hrun, hf | hmem⟩
      · rw [hrun]
        exact avoids_ok _
      · have he := hrow e (by simp)
        rw [hf] at he
        rw [hrun]
        exact avoids_error (he f rfl)
      · exact absurd hnodup (not_nodup_map_of_mem hmem)

end Plexus
