import Mathlib.Data.List.Induction
import Plexus.Compiled.Basic
import Plexus.Proofs.Store.Keyed

/-!
# The index table of a list of identifiers

If no two identifiers of a list are the same key, then its index table lists each of them
with its position, and looking an identifier up gives the position of the first that is the
same key.
-/

namespace Plexus
namespace IndexTable

/-- Entering a new identifier adds it at the end. -/
theorem insert_of_new {table : IndexTable} {id : Value} {i : Nat}
    (h : ∀ p ∈ table, p.1.same id = false) :
    table.insert id i = table ++ [(id, i)] := by
  induction table with
  | nil => rfl
  | cons p rest ih =>
      have hrest : ∀ q ∈ rest, q.1.same id = false :=
        fun q hq => h q (List.mem_cons_of_mem p hq)
      have hp : p.1.same id = false := h p List.mem_cons_self
      rw [insert, if_neg (by simp [hp]), ih hrest]
      rfl

theorem enter_of_apart {ids : List Value} {table : IndexTable} {next : Nat}
    (hids : ids.Pairwise fun u v => u.same v = false)
    (htable : ∀ p ∈ table, ∀ id ∈ ids, p.1.same id = false) :
    table.enter next ids = table ++ ids.zipIdx next := by
  induction ids generalizing table next with
  | nil => simp [enter]
  | cons id rest ih =>
      rcases List.pairwise_cons.mp hids with ⟨hid, hrest⟩
      have hnew : ∀ p ∈ table, p.1.same id = false :=
        fun p hp => htable p hp id List.mem_cons_self
      have htable' : ∀ p ∈ table ++ [(id, next)], ∀ v ∈ rest, p.1.same v = false := by
        intro p hp v hv
        rcases List.mem_append.mp hp with hp | hp
        · exact htable p hp v (List.mem_cons_of_mem id hv)
        · rw [List.mem_singleton.mp hp]
          exact hid v hv
      rw [enter, insert_of_new hnew, ih hrest htable', List.append_assoc, List.zipIdx_cons]
      rfl

/-- The table of identifiers of which no two are the same key. -/
theorem ofIds_of_apart {ids : List Value} (h : ids.Pairwise fun u v => u.same v = false) :
    ofIds ids = ids.zipIdx := by
  have htable : ∀ p ∈ ([] : IndexTable), ∀ id ∈ ids, p.1.same id = false := by
    intro p hp
    cases hp
  rw [ofIds, enter_of_apart h htable, List.nil_append]

/-- Looking up in a list with positions finds a position of the list. -/
theorem find?_zipIdx_eq_some {ids : List Value} {next i : Nat} {id : Value}
    (h : find? (ids.zipIdx next) id = some i) :
    ∃ k, i = next + k ∧ ∃ key, ids[k]? = some key ∧ key.same id = true := by
  induction ids generalizing next with
  | nil => cases h
  | cons key rest ih =>
      rw [List.zipIdx_cons, find?] at h
      split at h
      · next hsame =>
          cases h
          exact ⟨0, rfl, key, rfl, hsame⟩
      · rcases ih h with ⟨k, hk, found⟩
        exact ⟨k + 1, by omega, found⟩

theorem find?_zipIdx_of_first {xs ys : List Value} {next : Nat} {key id : Value}
    (hbefore : ∀ u ∈ xs, u.same id = false) (hkey : key.same id = true) :
    find? ((xs ++ key :: ys).zipIdx next) id = some (next + xs.length) := by
  induction xs generalizing next with
  | nil => rw [List.nil_append, List.zipIdx_cons, find?, if_pos hkey]; rfl
  | cons u rest ih =>
      have hu : u.same id = false := hbefore u List.mem_cons_self
      have hrest : ∀ v ∈ rest, v.same id = false :=
        fun v hv => hbefore v (List.mem_cons_of_mem u hv)
      rw [List.cons_append, List.zipIdx_cons, find?, if_neg (by simp [hu]), ih hrest,
        List.length_cons]
      congr 1
      omega

/-- An identifier of the list is found at its own position. -/
theorem find?_ofIds_getElem {ids : List Value} {i : Nat} {id : Value}
    (hapart : ids.Pairwise fun u v => u.same v = false)
    (hself : id.same id = true) (hi : ids[i]? = some id) :
    find? (ofIds ids) id = some i := by
  rcases List.getElem?_eq_some_iff.mp hi with ⟨hlt, hget⟩
  have hsplit : ids = ids.take i ++ id :: ids.drop (i + 1) := by
    rw [← hget, List.getElem_cons_drop, List.take_append_drop]
  have hbefore : ∀ u ∈ ids.take i, u.same id = false := by
    intro u hu
    rw [hsplit] at hapart
    exact (List.pairwise_append.mp hapart).2.2 u hu id List.mem_cons_self
  rw [ofIds_of_apart hapart, hsplit, find?_zipIdx_of_first hbefore hself, List.length_take,
    Nat.min_eq_left (Nat.le_of_lt hlt), Nat.zero_add]

/-- What is found is a position whose identifier is the same key. -/
theorem find?_ofIds_eq_some {ids : List Value} {i : Nat} {id : Value}
    (hapart : ids.Pairwise fun u v => u.same v = false)
    (h : find? (ofIds ids) id = some i) :
    ∃ key, ids[i]? = some key ∧ key.same id = true := by
  rw [ofIds_of_apart hapart] at h
  rcases find?_zipIdx_eq_some h with ⟨k, hk, key, hget, hsame⟩
  have hik : i = k := by omega
  rw [hik]
  exact ⟨key, hget, hsame⟩

/-- Among texts, an identifier is found at a position exactly if it stands there. -/
theorem find?_ofIds_iff {ids : List Value} {i : Nat} {id : Value}
    (hapart : ids.Pairwise fun u v => u.same v = false)
    (htext : ∀ u ∈ ids, u.IsText) (hid : id.IsText) :
    find? (ofIds ids) id = some i ↔ ids[i]? = some id := by
  constructor
  · intro h
    rcases find?_ofIds_eq_some hapart h with ⟨key, hget, hsame⟩
    have hkey : key.IsText := htext key (List.mem_of_getElem? hget)
    rw [hget, (Value.same_iff_eq hkey hid).mp hsame]
  · intro h
    exact find?_ofIds_getElem hapart ((Value.same_iff_eq hid hid).mpr rfl) h

/-!
## Identifiers that repeat

A table of texts is entered from left to right, and a text that is already there is given the
new index.  What is found in the end is therefore the last position of a text.
-/

/-- Whether an identifier stands at a position of a list and at none after it. -/
def LastAt (ids : List Value) (id : Value) (i : Nat) : Prop :=
  ids[i]? = some id ∧ ∀ j, i < j → ids[j]? ≠ some id

theorem lastAt_concat_self {ids : List Value} {id : Value} {i : Nat} :
    LastAt (ids ++ [id]) id i ↔ i = ids.length := by
  have hend : (ids ++ [id])[ids.length]? = some id := List.getElem?_concat_length
  constructor
  · intro h
    have hi : i < (ids ++ [id]).length := (List.getElem?_eq_some_iff.mp h.1).1
    rw [List.length_append, List.length_singleton] at hi
    rcases Nat.lt_or_eq_of_le (Nat.le_of_lt_succ hi) with hlt | heq
    · exact absurd hend (h.2 ids.length hlt)
    · exact heq
  · intro hi
    rw [hi]
    refine ⟨hend, fun j hj => ?_⟩
    rw [List.getElem?_eq_none (by simp; omega)]
    simp

theorem lastAt_concat_of_ne {ids : List Value} {last id : Value} {i : Nat} (hne : last ≠ id) :
    LastAt (ids ++ [last]) id i ↔ LastAt ids id i := by
  have hget : ∀ j : Nat, (ids ++ [last])[j]? = some id ↔ ids[j]? = some id := by
    intro j
    rcases Nat.lt_trichotomy j ids.length with hlt | heq | hgt
    · rw [List.getElem?_append_left hlt]
    · rw [heq, List.getElem?_concat_length]
      simp [hne]
    · rw [List.getElem?_eq_none (by simp; omega), List.getElem?_eq_none (by omega)]
  simp only [LastAt, ne_eq, hget]

theorem text_of_mem_insert {table : IndexTable} {id : Value} {i : Nat} {p : Value × Nat}
    (htable : ∀ p ∈ table, p.1.IsText) (hid : id.IsText) (hp : p ∈ table.insert id i) :
    p.1.IsText := by
  induction table with
  | nil =>
      rw [List.mem_singleton.mp hp]
      exact hid
  | cons q rest ih =>
      have hq : q.1.IsText := htable q List.mem_cons_self
      have hrest : ∀ p ∈ rest, p.1.IsText := fun p hp => htable p (List.mem_cons_of_mem q hp)
      rw [insert] at hp
      split at hp
      · rcases List.mem_cons.mp hp with rfl | hp
        · exact hq
        · exact hrest p hp
      · rcases List.mem_cons.mp hp with rfl | hp
        · exact hq
        · exact ih hrest hp

/-- What is found after a text has been given an index. -/
theorem find?_insert {table : IndexTable} {id key : Value} {i : Nat}
    (htable : ∀ p ∈ table, p.1.IsText) (hid : id.IsText) (hkey : key.IsText) :
    find? (table.insert id i) key = if id.same key then some i else find? table key := by
  induction table with
  | nil => rfl
  | cons p rest ih =>
      have hp : p.1.IsText := htable p List.mem_cons_self
      have hrest := ih fun q hq => htable q (List.mem_cons_of_mem p hq)
      rw [insert]
      by_cases hpid : p.1.same id = true
      · rw [if_pos hpid, find?, find?, ← (Value.same_iff_eq hp hid).mp hpid]
        split
        · rfl
        · rfl
      · rw [if_neg hpid, find?, find?, hrest]
        by_cases hpkey : p.1.same key = true
        · have hidkey : ¬id.same key = true := by
            rw [Value.same_iff_eq hid hkey]
            intro heq
            exact hpid (heq ▸ hpkey)
          rw [if_pos hpkey, if_neg hidkey, if_pos hpkey]
        · rw [if_neg hpkey, if_neg hpkey]

theorem enter_concat (table : IndexTable) (next : Nat) (ids : List Value) (id : Value) :
    table.enter next (ids ++ [id]) = (table.enter next ids).insert id (next + ids.length) := by
  induction ids generalizing table next with
  | nil => rfl
  | cons u rest ih =>
      rw [List.cons_append, enter, enter, ih, List.length_cons]
      congr 1
      omega

theorem ofIds_concat (ids : List Value) (id : Value) :
    ofIds (ids ++ [id]) = (ofIds ids).insert id ids.length := by
  rw [ofIds, enter_concat, Nat.zero_add, ofIds]

theorem text_of_mem_ofIds {ids : List Value} (htext : ∀ u ∈ ids, u.IsText) {p : Value × Nat}
    (hp : p ∈ ofIds ids) : p.1.IsText := by
  induction ids using List.reverseRecOn generalizing p with
  | nil => cases hp
  | append_singleton ids id ih =>
      rw [ofIds_concat] at hp
      have hfront : ∀ u ∈ ids, u.IsText := fun u hu => htext u (List.mem_append_left _ hu)
      exact text_of_mem_insert (fun q hq => ih hfront hq) (htext id (by simp)) hp

theorem find?_text_iff_lastAt {ids : List Value} {id : Value} {i : Nat}
    (htext : ∀ u ∈ ids, u.IsText) (hid : id.IsText) :
    find? (ofIds ids) id = some i ↔ LastAt ids id i := by
  induction ids using List.reverseRecOn with
  | nil =>
      constructor
      · intro h
        cases h
      · intro h
        cases h.1
  | append_singleton ids last ih =>
      have hfront : ∀ u ∈ ids, u.IsText := fun u hu => htext u (List.mem_append_left _ hu)
      have hlast : last.IsText := htext last (by simp)
      rw [ofIds_concat, find?_insert (fun p hp => text_of_mem_ofIds hfront hp) hlast hid]
      by_cases hsame : last.same id = true
      · rw [if_pos hsame, (Value.same_iff_eq hlast hid).mp hsame, lastAt_concat_self,
          Option.some.injEq, eq_comm]
      · have hne : last ≠ id := fun heq => hsame ((Value.same_iff_eq hlast hid).mpr heq)
        rw [if_neg hsame, lastAt_concat_of_ne hne, ih hfront]

/-- A table of texts finds nothing but texts. -/
theorem text_of_find? {table : IndexTable} {id : Value} {i : Nat}
    (htable : ∀ p ∈ table, p.1.IsText) (h : find? table id = some i) : id.IsText := by
  induction table with
  | nil => cases h
  | cons p rest ih =>
      have hp : p.1.IsText := htable p List.mem_cons_self
      rw [find?] at h
      split at h
      · next hsame =>
          rw [Value.eq_of_text_same hp hsame]
          exact hp
      · exact ih (fun q hq => htable q (List.mem_cons_of_mem p hq)) h

/-- What is found is the last position of an identifier. -/
theorem find?_ofIds_iff_lastAt {ids : List Value} {id : Value} {i : Nat}
    (htext : ∀ u ∈ ids, u.IsText) :
    find? (ofIds ids) id = some i ↔ LastAt ids id i := by
  constructor
  · intro h
    have hid : id.IsText := text_of_find? (fun p hp => text_of_mem_ofIds htext hp) h
    exact (find?_text_iff_lastAt htext hid).mp h
  · intro h
    have hid : id.IsText := htext id (List.mem_of_getElem? h.1)
    exact (find?_text_iff_lastAt htext hid).mpr h

/-- Every identifier of a list has a last position. -/
theorem exists_lastAt {ids : List Value} {id : Value} (h : id ∈ ids) : ∃ i, LastAt ids id i := by
  induction ids using List.reverseRecOn with
  | nil => cases h
  | append_singleton ids last ih =>
      by_cases heq : last = id
      · rw [heq]
        exact ⟨ids.length, lastAt_concat_self.mpr rfl⟩
      · have hmem : id ∈ ids := by
          rcases List.mem_append.mp h with h | h
          · exact h
          · exact absurd (List.mem_singleton.mp h).symm heq
        rcases ih hmem with ⟨i, hi⟩
        exact ⟨i, (lastAt_concat_of_ne heq).mpr hi⟩

/-- If no identifier repeats, then each stands at one position only. -/
theorem lastAt_of_nodup {ids : List Value} {id : Value} {i : Nat} (hnodup : ids.Nodup)
    (hi : ids[i]? = some id) : LastAt ids id i := by
  refine ⟨hi, fun j hij hj => ?_⟩
  have hjLt : j < ids.length := (List.getElem?_eq_some_iff.mp hj).1
  have heq : i = j := (List.getElem?_inj (Nat.lt_trans hij hjLt) hnodup).mp (hi.trans hj.symm)
  omega

end IndexTable

namespace Compiled

variable {α : Type}

/-- The index of an identifier. -/
def place (c : Compiled α) (id : Value) : Nat := (c.index.find? id).getD 0

/-!
## Graphs that index a list of neurons
-/

/-- A compiled graph has the neurons of a list in their order. -/
structure Indexes (ns : List Neuron) (c : Compiled α) : Prop where
  size : c.size = ns.length
  ids : c.ids = ns.map Neuron.id
  index : c.index = .ofIds c.ids

namespace Indexes

variable {P : Value → Prop} {ns ns' : List Neuron} {c : Compiled α}

theorem apart (h : Indexes ns c) (hdistinct : Distinct P ns) :
    c.ids.Pairwise fun u v => u.same v = false := by
  rw [h.ids]
  exact List.pairwise_map.mpr hdistinct.apart

/-- A neuron has the index of its place. -/
theorem find?_id (h : Indexes ns c) (hP : Value.IdClass P) (hdistinct : Distinct P ns) {i : Nat}
    {n : Neuron} (hn : ns[i]? = some n) :
    c.index.find? n.id = some i := by
  have hid : c.ids[i]? = some n.id := by
    rw [h.ids, List.getElem?_map, hn, Option.map_some]
  have hkey := hP.isKey _ (hdistinct.named n (List.mem_of_getElem? hn))
  rw [h.index]
  exact IndexTable.find?_ofIds_getElem (h.apart hdistinct) hkey.2 hid

theorem place_eq (h : Indexes ns c) (hP : Value.IdClass P) (hdistinct : Distinct P ns) {i : Nat}
    {n : Neuron} (hn : ns[i]? = some n) :
    c.place n.id = i := by
  rw [Compiled.place, h.find?_id hP hdistinct hn, Option.getD_some]

/-- Every neuron has an index, and stands at it. -/
theorem place (h : Indexes ns c) (hP : Value.IdClass P) (hdistinct : Distinct P ns) {n : Neuron}
    (hn : n ∈ ns) :
    c.index.find? n.id = some (c.place n.id) ∧ ns[c.place n.id]? = some n := by
  rcases List.mem_iff_getElem?.mp hn with ⟨i, hi⟩
  rw [h.place_eq hP hdistinct hi]
  exact ⟨h.find?_id hP hdistinct hi, hi⟩

/-- Only the identifiers of the neurons matter. -/
theorem of_ids (h : Indexes ns c) (hids : ns'.map Neuron.id = ns.map Neuron.id) :
    Indexes ns' c where
  size := by
    rw [h.size, ← List.length_map Neuron.id, ← hids, List.length_map]
  ids := h.ids.trans hids.symm
  index := h.index

end Indexes
end Compiled
end Plexus
