import Plexus.Proofs.Store.Keys
import Plexus.Proofs.Store.Writes

/-!
# Stores in which a text is one key

Whatever is written to a store in memory or to a table, no text becomes the key of two entries,
and an entry that has a text for its identifier is kept under that.  Of other keys less is known:
a number can be kept under a flag that equals it, and rows may lack a key.
-/

namespace Plexus

open Attempt
open Value (IsText)

variable {ε : Type}

theorem textValue_eq_text_iff {cell : Option String} {k : String} :
    textValue cell = .text k ↔ cell = some k := by
  cases cell with
  | none => simp [textValue]
  | some s => simp [textValue]

/-- What is put under an identifier brings no key in but that, and that only if it is new. -/
theorem KeyedStore.keys_put (entries : List (Value × ε)) (id : Value) (e : ε) :
    (put entries id e).map Prod.fst = entries.map Prod.fst ∨
      (∀ p ∈ entries, p.1.same id = false) ∧
        (put entries id e).map Prod.fst = entries.map Prod.fst ++ [id] := by
  induction entries with
  | nil => exact Or.inr ⟨fun p hp => absurd hp List.not_mem_nil, rfl⟩
  | cons p rest ih =>
      rw [put]
      split
      · exact Or.inl rfl
      · next hp =>
        rw [List.map_cons, List.map_cons]
        rcases ih with hkeys | ⟨hnew, hkeys⟩
        · exact Or.inl (congrArg (p.1 :: ·) hkeys)
        · refine Or.inr ⟨List.forall_mem_cons.mpr ⟨?_, hnew⟩, congrArg (p.1 :: ·) hkeys⟩
          exact Bool.eq_false_iff.mpr hp

/-- The key of a row that is inserted is missing, or no other row has it. -/
theorem TableStore.key_of_create [Tabular ε] {s t : TableStore ε} {e : ε}
    (h : s.create e = .ok t) :
    ∃ row, t.rows = s.rows ++ [row] ∧
      ∀ k, Tabular.key row = some k → ∀ r ∈ s.rows, Tabular.key r ≠ some k := by
  rcases bind_eq_ok h with ⟨row, -, h⟩
  split at h
  · cases h
  · split at h
    · cases h
    · next hnew =>
      cases h
      refine ⟨row, rfl, fun k hk r hr hkey => hnew (List.any_eq_true.mpr ⟨r, hr, ?_⟩)⟩
      rw [hk, hasKey, hkey, beq_self_eq_true]

namespace Store

variable [Tabular ε]

/-- A property of stores that whatever is written to them leaves them. -/
def Lasting (I : Store ε → Prop) : Prop := ∀ w : Write ε, Respects (Kept I) w.perform

theorem Lasting.run {I : Store ε → Prop} (hI : Lasting I) {s : Store ε} (hs : I s)
    (ws : List (Write ε)) : I (Write.run s ws) := by
  induction ws generalizing s with
  | nil => exact hs
  | cons w rest ih => exact ih (hI w s hs)

/-- A store, in memory or in a table, in which no text is the key of two entries. -/
structure Unique (s : Store ε) : Prop where
  isKeyed : s.isKeyed = true
  labelled : ∀ t, s = .keyed t → ∀ p ∈ t.entries, (Identified.id p.2).IsText →
    p.1 = Identified.id p.2
  apart : s.keys.Pairwise fun u v => u.IsText → u ≠ v

theorem unique_keyed {s : KeyedStore ε}
    (hlabelled : ∀ p ∈ s.entries, (Identified.id p.2).IsText → p.1 = Identified.id p.2)
    (hapart : (s.entries.map Prod.fst).Pairwise fun u v => u.IsText → u ≠ v) :
    (Store.keyed s).Unique := by
  refine ⟨rfl, fun t ht => ?_, hapart⟩
  cases ht
  exact hlabelled

theorem unique_table {s : TableStore ε}
    (hapart : (s.rows.map (textValue ∘ Tabular.key)).Pairwise fun u v => u.IsText → u ≠ v) :
    (Store.table s).Unique :=
  ⟨rfl, fun _ ht => (nomatch ht), hapart⟩

theorem unique_empty {kind : StoreKind} (h : kind ≠ .plain) : (empty kind : Store ε).Unique := by
  cases kind with
  | keyed => exact unique_keyed (fun p hp => absurd hp List.not_mem_nil) List.Pairwise.nil
  | table => exact unique_table List.Pairwise.nil
  | plain => exact absurd rfl h

/-- A key may be added if it is a text that is no key yet. -/
theorem apart_concat {keys : List Value} {key : Value}
    (h : keys.Pairwise fun u v => u.IsText → u ≠ v) (hnew : ∀ u ∈ keys, u.IsText → u ≠ key) :
    (keys ++ [key]).Pairwise fun u v => u.IsText → u ≠ v := by
  rw [List.pairwise_append]
  refine ⟨h, List.pairwise_singleton _ _, fun u hu v hv => ?_⟩
  rw [List.mem_singleton.mp hv]
  exact hnew u hu

omit [Tabular ε] in
theorem apart_concat_of_not_same {entries : List (Value × ε)} {key : Value}
    (h : (entries.map Prod.fst).Pairwise fun u v => u.IsText → u ≠ v)
    (hnew : ∀ p ∈ entries, p.1.same key = false) :
    (entries.map Prod.fst ++ [key]).Pairwise fun u v => u.IsText → u ≠ v := by
  refine apart_concat h fun u hu htext heq => ?_
  rcases List.mem_map.mp hu with ⟨p, hp, rfl⟩
  have hsame := (Value.idClass_isText.isKey _ htext).2
  have happart := hnew p hp
  rw [← heq, hsame] at happart
  cases happart

theorem unique_created {s t : Store ε} {e : ε} (h : s.created e = .ok t) (hs : s.Unique) :
    t.Unique := by
  cases s with
  | keyed s =>
      rcases map_eq_ok h with ⟨s', hs', rfl⟩
      rcases KeyedStore.create_eq_ok hs' with ⟨hnew, hentries⟩
      apply unique_keyed
      · intro p hp htext
        rw [hentries] at hp
        rcases List.mem_append.mp hp with hp | hp
        · exact hs.labelled s rfl p hp htext
        · rw [List.mem_singleton.mp hp]
      · rw [hentries, List.map_append]
        exact apart_concat_of_not_same hs.apart hnew
  | table s =>
      rcases map_eq_ok h with ⟨s', hs', rfl⟩
      rcases TableStore.key_of_create hs' with ⟨row, hrows, hnew⟩
      apply unique_table
      rw [hrows, List.map_append]
      refine apart_concat hs.apart ?_
      rintro u hu ⟨k, rfl⟩ hkey
      rcases List.mem_map.mp hu with ⟨r, hr, hk⟩
      exact hnew k (textValue_eq_text_iff.mp hkey.symm) r hr (textValue_eq_text_iff.mp hk)
  | plain s => cases hs.isKeyed

theorem unique_updated {s t : Store ε} {e : ε} (h : s.updated e = .ok t) (hs : s.Unique) :
    t.Unique := by
  cases s with
  | keyed s =>
      rcases map_eq_ok h with ⟨s', hs', rfl⟩
      have hentries := KeyedStore.update_eq_ok hs'
      apply unique_keyed
      · intro p hp htext
        rw [hentries] at hp
        rcases KeyedStore.mem_put hp with hp | ⟨hentry, hkey | hsame⟩
        · exact hs.labelled s rfl p hp htext
        · rw [hkey, hentry]
        · rw [hentry] at htext ⊢
          exact Value.eq_of_same_text htext hsame
      · rw [hentries]
        rcases KeyedStore.keys_put s.entries (Identified.id e) e with hkeys | ⟨hnew, hkeys⟩
        · rw [hkeys]
          exact hs.apart
        · rw [hkeys]
          exact apart_concat_of_not_same hs.apart hnew
  | table s =>
      rcases map_eq_ok h with ⟨s', hs', rfl⟩
      apply unique_table
      rw [← List.map_map, TableStore.map_key_of_update hs', List.map_map]
      exact hs.apart
  | plain s => cases hs.isKeyed

theorem unique_deleted {s t : Store ε} {id : Value} (h : s.deleted id = .ok t) (hs : s.Unique) :
    t.Unique := by
  cases s with
  | keyed s =>
      rcases map_eq_ok h with ⟨s', hs', rfl⟩
      have hsub := KeyedStore.sublist_of_delete hs'
      apply unique_keyed
      · exact fun p hp => hs.labelled s rfl p (hsub.subset hp)
      · exact hs.apart.sublist (hsub.map Prod.fst)
  | table s =>
      rcases map_eq_ok h with ⟨s', hs', rfl⟩
      rcases bind_eq_ok hs' with ⟨key, -, hdelete⟩
      cases hdelete
      exact unique_table (hs.apart.sublist (List.filter_sublist.map _))
  | plain s => cases hs.isKeyed

theorem unique_cleared {s : Store ε} (hs : s.Unique) : s.cleared.Unique := by
  cases s with
  | keyed s => exact (unique_empty (by decide) : (empty .keyed : Store ε).Unique)
  | table s => exact (unique_empty (by decide) : (empty .table : Store ε).Unique)
  | plain s => cases hs.isKeyed

theorem lasting_unique : Lasting (Unique : Store ε → Prop) := by
  intro w
  cases w with
  | create e => exact respects_step fun _ _ => unique_created
  | update e => exact respects_step fun _ _ => unique_updated
  | delete id => exact respects_step fun _ _ => unique_deleted
  | clear => exact respects_modify fun _ => unique_cleared

/-- Neurons that are all named by texts are named by different ones. -/
theorem Unique.nodup_of_getAll {s : Store Neuron} {ns : List Neuron} (hs : s.Unique)
    (h : s.getAll = .ok ns) (htext : ∀ n ∈ ns, n.id.IsText) : (ns.map Neuron.id).Nodup := by
  have htidy : s.Tidy := by
    cases s with
    | keyed s =>
        cases h
        exact fun p hp => hs.labelled s rfl p hp (htext p.2 (List.mem_map_of_mem hp))
    | table s | plain s => trivial
  have hkeys := keys_of_getAll htidy h
  rw [← hkeys]
  refine hs.apart.imp_of_mem fun {u v} hu _ hne => hne ?_
  rw [hkeys] at hu
  rcases List.mem_map.mp hu with ⟨n, hn, rfl⟩
  exact htext n hn

end Store
end Plexus
