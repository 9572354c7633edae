import Plexus.Proofs.Attempt
import Plexus.Proofs.Value.Key
import Plexus.Store.Basic

/-!
# Keyed stores with distinct entries

A keyed store that is only used through its operations holds each entry under its own
identifier, and no two entries under the same one.  Such a store is determined by the list
of its entries, and each operation is an operation on that list.
-/

namespace Plexus

open Value (IdClass)

/--
Entries that can be kept together: their identifiers belong to a class, and no two of them
are the same key.
-/
structure Distinct {ε : Type} [Identified ε] (P : Value → Prop) (es : List ε) : Prop where
  named : ∀ e ∈ es, P (Identified.id e)
  apart : es.Pairwise fun d e => (Identified.id d).same (Identified.id e) = false

namespace Distinct

variable {ε : Type} [Identified ε] {P : Value → Prop}

instance [DecidablePred P] (es : List ε) : Decidable (Distinct P es) :=
  decidable_of_iff ((∀ e ∈ es, P (Identified.id e)) ∧
      es.Pairwise fun d e => (Identified.id d).same (Identified.id e) = false)
    ⟨fun h => ⟨h.1, h.2⟩, fun h => ⟨h.named, h.apart⟩⟩

theorem nil : Distinct P ([] : List ε) where
  named := by
    intro e he
    cases he
  apart := List.Pairwise.nil

theorem sublist {ds es : List ε} (h : Distinct P es) (hsub : ds.Sublist es) : Distinct P ds where
  named := fun e he => h.named e (hsub.subset he)
  apart := h.apart.sublist hsub

theorem snoc {es : List ε} {e : ε} (h : Distinct P es) (he : P (Identified.id e))
    (hnew : ∀ d ∈ es, (Identified.id d).same (Identified.id e) = false) :
    Distinct P (es ++ [e]) where
  named := by
    intro d hd
    rcases List.mem_append.mp hd with hd | hd
    · exact h.named d hd
    · rw [List.mem_singleton.mp hd]
      exact he
  apart := by
    rw [List.pairwise_append]
    refine ⟨h.apart, List.pairwise_singleton _ _, ?_⟩
    intro d hd e' he'
    rw [List.mem_singleton.mp he']
    exact hnew d hd

/-- Only the identifiers of entries count. -/
theorem of_map_id {ds es : List ε} (h : Distinct P ds)
    (hid : es.map Identified.id = ds.map Identified.id) :
    Distinct P es where
  named := by
    intro e he
    have hmem : Identified.id e ∈ ds.map Identified.id := by
      rw [← hid]
      exact List.mem_map_of_mem he
    rcases List.mem_map.mp hmem with ⟨d, hd, hde⟩
    rw [← hde]
    exact h.named d hd
  apart := by
    have hd : (ds.map Identified.id).Pairwise fun u v => u.same v = false :=
      List.pairwise_map.mpr h.apart
    rw [← hid] at hd
    exact List.pairwise_map.mp hd

/-- Entries before another one have other identifiers. -/
theorem before {xs ys : List ε} {e : ε} (h : Distinct P (xs ++ e :: ys)) :
    ∀ d ∈ xs, (Identified.id d).same (Identified.id e) = false := by
  intro d hd
  exact (List.pairwise_append.mp h.apart).2.2 d hd e List.mem_cons_self

theorem nodup (hP : IdClass P) {es : List ε} (h : Distinct P es) : es.Nodup := by
  apply h.apart.imp_of_mem
  intro d e hd _ hapart heq
  rw [← heq, (hP.isKey _ (h.named d hd)).2] at hapart
  cases hapart

theorem nodup_ids (hP : IdClass P) {es : List ε} (h : Distinct P es) :
    (es.map Identified.id).Nodup := by
  refine List.pairwise_map.mpr (h.apart.imp_of_mem fun {d e} _ he hapart heq => ?_)
  rw [heq, (hP.isKey _ (h.named e he)).2] at hapart
  cases hapart

end Distinct

namespace KeyedStore

variable {ε : Type} [Identified ε] {P : Value → Prop}

/-- The store that holds each of some entries under its own identifier. -/
def ofList (es : List ε) : KeyedStore ε := ⟨es.map fun e => (Identified.id e, e)⟩

@[simp] theorem toList_ofList (es : List ε) : (ofList es).toList = es := by
  simp [ofList, toList, Function.comp_def]

theorem has_ofList (es : List ε) (id : Value) :
    (ofList es).has id = es.any fun e => (Identified.id e).same id := by
  simp [ofList, has, List.any_map, Function.comp_def]

omit [Identified ε] in
/-- Putting an entry under a new identifier adds it at the end. -/
theorem put_of_new {entries : List (Value × ε)} {id : Value} {e : ε}
    (h : ∀ p ∈ entries, p.1.same id = false) :
    put entries id e = entries ++ [(id, e)] := by
  induction entries with
  | nil => rfl
  | cons p rest ih =>
      have hrest : ∀ q ∈ rest, q.1.same id = false :=
        fun q hq => h q (List.mem_cons_of_mem p hq)
      have hp : p.1.same id = false := h p List.mem_cons_self
      rw [put, if_neg (by simp [hp]), ih hrest]
      rfl

theorem create_eq_ok {s t : KeyedStore ε} {e : ε} (h : s.create e = .ok t) :
    (∀ p ∈ s.entries, p.1.same (Identified.id e) = false) ∧
      t.entries = s.entries ++ [(Identified.id e, e)] := by
  rw [create] at h
  split at h
  · cases h
  · split at h
    · cases h
    · next hnew =>
      cases h
      rw [has, Bool.not_eq_true, List.any_eq_false] at hnew
      have hapart : ∀ p ∈ s.entries, p.1.same (Identified.id e) = false :=
        fun p hp => Bool.not_eq_true _ ▸ hnew p hp
      exact ⟨hapart, put_of_new hapart⟩

theorem update_eq_ok {s t : KeyedStore ε} {e : ε} (h : s.update e = .ok t) :
    t.entries = put s.entries (Identified.id e) e := by
  rw [update] at h
  split at h
  · cases h
  · cases h
    rfl

omit [Identified ε] in
theorem sublist_of_delete {s t : KeyedStore ε} {id : Value} (h : s.delete id = .ok t) :
    t.entries.Sublist s.entries := by
  rw [delete] at h
  split at h
  · cases h
    exact List.Sublist.refl _
  · split at h
    · cases h
    · cases h
      exact List.filter_sublist

omit [Identified ε] in
/-- Putting an entry under an identifier that is there replaces the first entry under it. -/
theorem put_of_present {before after : List (Value × ε)} {key id : Value} {d e : ε}
    (h : ∀ p ∈ before, p.1.same id = false) (hkey : key.same id = true) :
    put (before ++ (key, d) :: after) id e = before ++ (key, e) :: after := by
  induction before with
  | nil => rw [List.nil_append, put, if_pos hkey, List.nil_append]
  | cons p rest ih =>
      have hrest : ∀ q ∈ rest, q.1.same id = false :=
        fun q hq => h q (List.mem_cons_of_mem p hq)
      have hp : p.1.same id = false := h p List.mem_cons_self
      rw [List.cons_append, put, if_neg (by simp [hp]), ih hrest]
      rfl

/-!
## The operations on a store of distinct entries
-/

/-- An entry with a new identifier is added at the end. -/
theorem create_of_new {es : List ε} {e : ε} (he : (Identified.id e).IsKey)
    (hnew : ∀ d ∈ es, (Identified.id d).same (Identified.id e) = false) :
    (ofList es).create e = .ok (ofList (es ++ [e])) := by
  have hhas : (ofList es).has (Identified.id e) = false := by
    rw [has_ofList, List.any_eq_false]
    intro d hd
    rw [hnew d hd]
    exact Bool.false_ne_true
  have hentries : ∀ p ∈ (ofList es).entries, p.1.same (Identified.id e) = false := by
    intro p hp
    rcases List.mem_map.mp hp with ⟨d, hd, rfl⟩
    exact hnew d hd
  simp only [create, he.1, hhas, Bool.not_true, Bool.false_eq_true, if_false,
    put_of_new hentries]
  simp [ofList]

/-- An entry is refused, or it is added at the end and its identifier is new. -/
theorem create_ofList (hP : IdClass P) {es : List ε} {e : ε} (h : Distinct P es)
    (he : P (Identified.id e)) :
    (∃ f, (ofList es).create e = .error f) ∨
      (ofList es).create e = .ok (ofList (es ++ [e])) ∧ Distinct P (es ++ [e]) := by
  have hkey := hP.isKey _ he
  cases hhas : (ofList es).has (Identified.id e) with
  | true =>
      apply Or.inl
      exact ⟨_, by simp only [create, hkey.1, hhas]; rfl⟩
  | false =>
      apply Or.inr
      have hnew : ∀ d ∈ es, (Identified.id d).same (Identified.id e) = false := by
        intro d hd
        rw [has_ofList, List.any_eq_false] at hhas
        simpa using hhas d hd
      exact ⟨create_of_new hkey hnew, h.snoc he hnew⟩

/-- Replacing an entry by one with its identifier keeps the entry's place. -/
theorem update_ofList (hP : IdClass P) {xs ys : List ε} {d e : ε}
    (h : Distinct P (xs ++ d :: ys)) (hid : Identified.id e = Identified.id d) :
    (ofList (xs ++ d :: ys)).update e = .ok (ofList (xs ++ e :: ys)) ∧
      Distinct P (xs ++ e :: ys) := by
  have hkey := hP.isKey _ (h.named d (by simp))
  have hbefore : ∀ p ∈ (ofList xs).entries, p.1.same (Identified.id d) = false := by
    intro p hp
    rcases List.mem_map.mp hp with ⟨c, hc, rfl⟩
    exact h.before c hc
  constructor
  · have hput : put ((ofList xs).entries ++ (Identified.id d, d) :: (ofList ys).entries)
        (Identified.id d) e =
          (ofList xs).entries ++ (Identified.id d, e) :: (ofList ys).entries :=
      put_of_present hbefore hkey.2
    simp only [update, hid, hkey.1, Bool.not_true, Bool.false_eq_true, if_false]
    simp only [ofList, List.map_append, List.map_cons, hid] at hput ⊢
    rw [hput]
  · exact h.of_map_id (by simp [hid])

/-- Deleting by an identifier that can be one drops the entries under it. -/
theorem delete_ofList {es : List ε} {id : Value} (hid : id.isScalar = true) :
    (ofList es).delete id =
      .ok (ofList (es.filter fun e => !(Identified.id e).same id)) := by
  unfold delete
  split
  · next hempty =>
      have hes : es = [] := by simpa [ofList] using hempty
      rw [hes]
      rfl
  · rw [hid]
    simp [ofList, List.filter_map, Function.comp_def]

/-- What can be no identifier is refused, unless there is nothing to delete. -/
theorem delete_of_not_scalar (es : List ε) {id : Value} (hid : id.isScalar = false) :
    (∃ f, (ofList es).delete id = .error f) ∨ (ofList es).delete id = .ok (ofList es) := by
  unfold delete
  split
  · exact Or.inr rfl
  · apply Or.inl
    exact ⟨.mistyped, by rw [hid]; rfl⟩

/-!
## Filling a store
-/

/-- The store that some entries are put into one after the other. -/
def filled (es : List ε) : Except Fault (KeyedStore ε) := es.foldlM create empty

theorem foldlM_create (hP : IdClass P) {es ds : List ε} {s : KeyedStore ε}
    (hds : Distinct P ds) (hes : ∀ e ∈ es, P (Identified.id e))
    (h : es.foldlM create (ofList ds) = .ok s) :
    s = ofList (ds ++ es) ∧ Distinct P (ds ++ es) := by
  induction es generalizing ds with
  | nil =>
      cases h
      rw [List.append_nil]
      exact ⟨rfl, hds⟩
  | cons e rest ih =>
      rw [List.foldlM_cons] at h
      rcases create_ofList hP hds (hes e List.mem_cons_self) with ⟨f, hf⟩ | ⟨hok, hds'⟩
      · rw [hf] at h
        cases h
      · rw [hok] at h
        have hrest := ih hds' (fun d hd => hes d (List.mem_cons_of_mem e hd)) h
        rw [List.append_assoc] at hrest
        exact hrest

/-- A store that could be filled holds what was put into it, and its entries are distinct. -/
theorem filled_eq_ok (hP : IdClass P) {es : List ε} {s : KeyedStore ε}
    (hes : ∀ e ∈ es, P (Identified.id e)) (h : filled es = .ok s) :
    s = ofList es ∧ Distinct P es :=
  foldlM_create hP Distinct.nil hes h

end KeyedStore

namespace Store

open Attempt

variable {ε : Type} [Tabular ε] {P : Value → Prop}

/-!
## Steps on a store of distinct entries
-/

theorem outcome_step (f : Store ε → Except Fault (Store ε)) (s : Store ε) :
    (step f).outcome s =
      match f s with
      | .ok t => (.ok (), t)
      | .error e => (.error e, s) := by
  rw [step, outcome_get_bind]
  cases f s with
  | ok t => rw [outcome_of_ok_bind, outcome_set]
  | error e => rw [outcome_of_error_bind]

theorem outcome_create_of_new {es : List ε} {e : ε} (he : (Identified.id e).IsKey)
    (hnew : ∀ d ∈ es, (Identified.id d).same (Identified.id e) = false) :
    (create e).outcome (.keyed (.ofList es)) = (.ok (), .keyed (.ofList (es ++ [e]))) := by
  rw [create, outcome_step, created, KeyedStore.create_of_new he hnew]
  rfl

/-- Entries that can be kept together are stored in their order. -/
theorem outcome_forM_create (hP : Value.IdClass P) {es : List ε} (h : Distinct P es) :
    (es.forM create).outcome (.keyed .empty) = (.ok (), .keyed (.ofList es)) := by
  have hloop := outcome_forM_of_step (f := create) (l := es) (s := .keyed .empty)
    (I := fun done rest t => done ++ rest = es ∧ t = .keyed (.ofList done)) ?_ ⟨rfl, rfl⟩
  · rcases hloop with ⟨t, hrun, -, rfl⟩
    exact hrun
  · intro done e rest t he hI
    rcases hI with ⟨hsplit, rfl⟩
    have hdistinct : Distinct P (done ++ e :: rest) := by
      rw [hsplit]
      exact h
    have hcreate := outcome_create_of_new (hP.isKey _ (h.named e he)) hdistinct.before
    refine ⟨_, hcreate, ?_, rfl⟩
    rw [List.append_assoc]
    exact hsplit

theorem outcome_create (hP : Value.IdClass P) {es : List ε} {e : ε} (h : Distinct P es)
    (he : P (Identified.id e)) :
    (∃ f, (create e).outcome (.keyed (.ofList es)) = (.error f, .keyed (.ofList es))) ∨
      (create e).outcome (.keyed (.ofList es)) = (.ok (), .keyed (.ofList (es ++ [e]))) ∧
        Distinct P (es ++ [e]) := by
  rw [create, outcome_step, created]
  rcases KeyedStore.create_ofList hP h he with ⟨f, hf⟩ | ⟨hok, hdistinct⟩
  · rw [hf]
    exact Or.inl ⟨f, rfl⟩
  · rw [hok]
    exact Or.inr ⟨rfl, hdistinct⟩

theorem outcome_update (hP : Value.IdClass P) {xs ys : List ε} {d e : ε}
    (h : Distinct P (xs ++ d :: ys)) (hid : Identified.id e = Identified.id d) :
    (update e).outcome (.keyed (.ofList (xs ++ d :: ys))) =
      (.ok (), .keyed (.ofList (xs ++ e :: ys))) := by
  rw [update, outcome_step, updated, (KeyedStore.update_ofList hP h hid).1]
  rfl

theorem outcome_delete {es : List ε} {id : Value} (hid : id.isScalar = true) :
    (delete id).outcome (.keyed (.ofList es)) =
      (.ok (), .keyed (.ofList (es.filter fun e => !(Identified.id e).same id))) := by
  rw [delete, outcome_step, deleted, KeyedStore.delete_ofList hid]
  rfl

theorem outcome_delete_of_not_scalar (es : List ε) {id : Value} (hid : id.isScalar = false) :
    ∃ r, (delete id).outcome (.keyed (.ofList es)) = (r, .keyed (.ofList es)) := by
  rw [delete, outcome_step, deleted]
  rcases KeyedStore.delete_of_not_scalar es hid with ⟨f, hf⟩ | hok
  · rw [hf]
    exact ⟨.error f, rfl⟩
  · rw [hok]
    exact ⟨.ok (), rfl⟩

end Store
end Plexus
