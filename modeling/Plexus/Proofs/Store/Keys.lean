import Plexus.Proofs.Store.Table

/-!
# The order in which stores list their entries

Keyed stores and tables keep the place of an entry that is updated.  A plain store updates an
entry by removing and adding it, and so moves it to the end.  What a store lists is in the order of
its keys, as long as it holds each entry under the entry's own identifier.
-/

namespace Plexus

open Attempt
open Value (IsText)

/-!
## Moving identifiers to the end
-/

/-- Some identifiers with one of them moved to the end. -/
def toEnd (ids : List Value) (id : Value) : List Value :=
  ids.filter (fun v => !v.equal id) ++ [id]

theorem mem_toEnd {ids : List Value} {id v : Value} (hid : id.IsText) (hv : v ∈ ids) :
    v ∈ toEnd ids id := by
  rw [toEnd, List.mem_append, List.mem_filter, List.mem_singleton]
  cases hequal : v.equal id with
  | true => exact Or.inr (Value.eq_of_equal_text hid hequal)
  | false => exact Or.inl ⟨hv, rfl⟩

theorem toEnd_of_nodup {xs ys : List Value} {id : Value} (hid : id.IsText)
    (h : (xs ++ id :: ys).Nodup) : toEnd (xs ++ id :: ys) id = xs ++ ys ++ [id] := by
  have hself : id.equal id = true := by
    rcases hid with ⟨s, rfl⟩
    simp
  have hother : ∀ vs : List Value, id ∉ vs → vs.filter (fun v => !v.equal id) = vs := by
    intro vs hvs
    rw [List.filter_eq_self]
    intro v hv
    rw [Bool.not_eq_true', Bool.eq_false_iff]
    intro hequal
    exact hvs (Value.eq_of_equal_text hid hequal ▸ hv)
  rcases List.nodup_append.mp h with ⟨-, hys, happart⟩
  have hxs : id ∉ xs := fun hmem => happart id hmem id List.mem_cons_self rfl
  rw [toEnd, List.filter_append, List.filter_cons, hself, hother xs hxs,
    hother ys (List.nodup_cons.mp hys).1]
  rfl

theorem perm_toEnd {ids : List Value} {id : Value} (hid : id.IsText) (hmem : id ∈ ids)
    (h : ids.Nodup) : (toEnd ids id).Perm ids := by
  rcases List.append_of_mem hmem with ⟨xs, ys, rfl⟩
  rw [toEnd_of_nodup hid h]
  exact (List.perm_append_singleton id (xs ++ ys)).trans List.perm_middle.symm

/-- However often identifiers are moved, they stay the same identifiers. -/
theorem perm_foldl_toEnd {ids moves : List Value} (hmoves : ∀ id ∈ moves, id.IsText ∧ id ∈ ids)
    (h : ids.Nodup) : (moves.foldl toEnd ids).Perm ids := by
  induction moves generalizing ids with
  | nil => exact List.Perm.refl ids
  | cons id rest ih =>
      rcases hmoves id List.mem_cons_self with ⟨hid, hmem⟩
      have hperm := perm_toEnd hid hmem h
      have hrest : ∀ v ∈ rest, v.IsText ∧ v ∈ toEnd ids id := fun v hv =>
        ⟨(hmoves v (List.mem_cons_of_mem id hv)).1,
          mem_toEnd hid (hmoves v (List.mem_cons_of_mem id hv)).2⟩
      exact (ih hrest (hperm.nodup_iff.mpr h)).trans hperm

/-!
## Keys
-/

namespace KeyedStore

variable {ε : Type}

/-- What is put under an identifier is there under that, or under the key that is the same. -/
theorem mem_put {entries : List (Value × ε)} {p : Value × ε} {id : Value} {e : ε}
    (h : p ∈ put entries id e) :
    p ∈ entries ∨ p.2 = e ∧ (p.1 = id ∨ p.1.same id = true) := by
  induction entries with
  | nil =>
      rw [put, List.mem_singleton] at h
      rw [h]
      exact Or.inr ⟨rfl, Or.inl rfl⟩
  | cons q rest ih =>
      rw [put] at h
      split at h
      · next hsame =>
        rcases List.mem_cons.mp h with rfl | h
        · exact Or.inr ⟨rfl, Or.inr hsame⟩
        · exact Or.inl (List.mem_cons_of_mem q h)
      · rcases List.mem_cons.mp h with rfl | h
        · exact Or.inl List.mem_cons_self
        · exact (ih h).imp_left (List.mem_cons_of_mem q)

theorem keys_put_of_mem {entries : List (Value × ε)} {id : Value} {e : ε} (hid : id.IsText)
    (h : id ∈ entries.map Prod.fst) :
    (put entries id e).map Prod.fst = entries.map Prod.fst := by
  induction entries with
  | nil => cases h
  | cons q rest ih =>
      rw [put]
      split
      · rfl
      · next happart =>
        rcases List.mem_cons.mp h with rfl | h
        · rcases hid with ⟨s, hs⟩
          rw [hs, Value.same_text_text, beq_self_eq_true] at happart
          exact absurd rfl happart
        · rw [List.map_cons, List.map_cons, ih h]

end KeyedStore

namespace TableStore

variable {ε : Type} [Tabular ε]

theorem update_eq_ok {s t : TableStore ε} {e : ε} (h : s.update e = .ok t) :
    t = s ∨ ∃ row, t = ⟨s.rows.map fun r => if hasKey r (Tabular.key row) then row else r⟩ := by
  rcases bind_eq_ok h with ⟨row, -, h⟩
  split at h
  · split at h
    · cases h
    · cases h
      exact Or.inr ⟨row, rfl⟩
  · cases h
    exact Or.inl rfl

/-- A row is only ever overwritten by one with its own key. -/
theorem key_of_hasKey {r row : Tabular.Row ε} (h : hasKey r (Tabular.key row) = true) :
    Tabular.key row = Tabular.key r := by
  cases hkey : Tabular.key row with
  | none =>
      rw [hkey] at h
      cases h
  | some k =>
      rw [hkey] at h
      exact (eq_of_beq h).symm

theorem map_key_of_update {s t : TableStore ε} {e : ε} (h : s.update e = .ok t) :
    t.rows.map Tabular.key = s.rows.map Tabular.key := by
  rcases update_eq_ok h with rfl | ⟨row, rfl⟩
  · rfl
  · rw [List.map_map]
    refine List.map_congr_left fun r _ => ?_
    show Tabular.key (if _ then _ else _) = _
    split
    · next hkey => rw [key_of_hasKey hkey]
    · rfl

end TableStore

namespace Store

variable {ε : Type} [Tabular ε]

/-- The identifiers that a store keeps its entries under, in order. -/
def keys : Store ε → List Value
  | .keyed s => s.entries.map Prod.fst
  | .table s => s.rows.map fun row => textValue (Tabular.key row)
  | .plain s => s.entries.map Identified.id

/-- A store that holds each entry under the entry's own identifier. -/
def Tidy : Store ε → Prop
  | .keyed s => ∀ p ∈ s.entries, p.1 = Identified.id p.2
  | .table _ | .plain _ => True

/-- The order that identifiers are in once some of them have been updated in a store, in turn. -/
def reordered (s : Store ε) (ids moves : List Value) : List Value :=
  if s.isKeyed then ids else moves.foldl toEnd ids

theorem reordered_nil (s : Store ε) (ids : List Value) : s.reordered ids [] = ids := by
  rw [reordered]
  split <;> rfl

theorem reordered_append (s : Store ε) (ids moves moves' : List Value) :
    s.reordered ids (moves ++ moves') = s.reordered (s.reordered ids moves) moves' := by
  unfold reordered
  split
  · rfl
  · rw [List.foldl_append]

theorem perm_reordered (s : Store ε) {ids moves : List Value}
    (hmoves : ∀ id ∈ moves, id.IsText ∧ id ∈ ids) (h : ids.Nodup) :
    (s.reordered ids moves).Perm ids := by
  rw [reordered]
  split
  · exact List.Perm.refl ids
  · exact perm_foldl_toEnd hmoves h

theorem mem_reordered (s : Store ε) {ids moves : List Value} {id : Value}
    (hmoves : ∀ v ∈ moves, v.IsText) (h : id ∈ ids) : id ∈ s.reordered ids moves := by
  rw [reordered]
  split
  · exact h
  · induction moves generalizing ids with
    | nil => exact h
    | cons v rest ih =>
        exact ih (fun w hw => hmoves w (List.mem_cons_of_mem v hw))
          (mem_toEnd (hmoves v List.mem_cons_self) h)

/-- A store of the same kind as another one, and tidy if that is. -/
structure Tends (s t : Store ε) : Prop where
  isKeyed : t.isKeyed = s.isKeyed
  tidy : s.Tidy → t.Tidy

instance : IsPreorder (Store ε) Tends where
  refl _ := ⟨rfl, fun h => h⟩
  trans _ _ _ h h' := ⟨h'.isKeyed.trans h.isKeyed, fun hs => h'.tidy (h.tidy hs)⟩

theorem Tends.reordered {s t : Store ε} (h : s.Tends t) (ids moves : List Value) :
    t.reordered ids moves = s.reordered ids moves := by
  rw [Store.reordered, Store.reordered, h.isKeyed]

theorem respects_step {R : Store ε → Store ε → Prop} [IsPreorder (Store ε) R]
    {f : Store ε → Except Fault (Store ε)} (h : ∀ s t, f s = .ok t → R s t) :
    Respects R (step f) := by
  intro s
  rw [after, outcome_step]
  cases hf : f s with
  | ok t => exact h s t hf
  | error e => exact refl s

theorem tends_create (e : ε) : Respects Tends (create e) := by
  refine respects_step fun s t h => ?_
  cases s with
  | keyed s =>
      rcases map_eq_ok h with ⟨s', hs', rfl⟩
      refine ⟨rfl, fun hs p hp => ?_⟩
      rw [(KeyedStore.create_eq_ok hs').2] at hp
      rcases List.mem_append.mp hp with hp | hp
      · exact hs p hp
      · rw [List.mem_singleton.mp hp]
  | table s =>
      rcases map_eq_ok h with ⟨s', -, rfl⟩
      exact ⟨rfl, fun _ => trivial⟩
  | plain s =>
      cases h
      exact ⟨rfl, fun _ => trivial⟩

theorem tends_delete (id : Value) : Respects Tends (delete id : Attempt (Store ε) Unit) := by
  refine respects_step fun s t h => ?_
  cases s with
  | keyed s =>
      rcases map_eq_ok h with ⟨s', hs', rfl⟩
      exact ⟨rfl, fun hs p hp => hs p ((KeyedStore.sublist_of_delete hs').subset hp)⟩
  | table s =>
      rcases map_eq_ok h with ⟨s', -, rfl⟩
      exact ⟨rfl, fun _ => trivial⟩
  | plain s =>
      cases h
      exact ⟨rfl, fun _ => trivial⟩

theorem tends_clear : Respects Tends (clear : Attempt (Store ε) Unit) := by
  refine respects_modify fun s => ?_
  cases s with
  | keyed s => exact ⟨rfl, fun _ p hp => absurd hp List.not_mem_nil⟩
  | table s | plain s => exact ⟨rfl, fun _ => trivial⟩

/-- An update keeps the order of the keys, or moves the key of the entry to the end. -/
theorem keys_updated {s t : Store ε} {e : ε} (hid : (Identified.id e).IsText)
    (hmem : Identified.id e ∈ s.keys) (h : s.updated e = .ok t) :
    s.Tends t ∧ t.keys = s.reordered s.keys [Identified.id e] := by
  cases s with
  | keyed s =>
      rcases map_eq_ok h with ⟨s', hs', rfl⟩
      have hentries := KeyedStore.update_eq_ok hs'
      refine ⟨⟨rfl, fun hs p hp => ?_⟩, ?_⟩
      · rw [hentries] at hp
        rcases KeyedStore.mem_put hp with hp | ⟨hentry, hkey | hsame⟩
        · exact hs p hp
        · rw [hkey, hentry]
        · rw [Value.eq_of_same_text hid hsame, hentry]
      · show s'.entries.map Prod.fst = s.entries.map Prod.fst
        rw [hentries, KeyedStore.keys_put_of_mem hid hmem]
  | table s =>
      rcases map_eq_ok h with ⟨s', hs', rfl⟩
      refine ⟨⟨rfl, fun _ => trivial⟩, ?_⟩
      have hkeys := congrArg (List.map textValue) (TableStore.map_key_of_update hs')
      rwa [List.map_map, List.map_map] at hkeys
  | plain s =>
      cases h
      refine ⟨⟨rfl, fun _ => trivial⟩, ?_⟩
      show List.map _ (List.filter _ s.entries ++ [e]) = toEnd (s.entries.map Identified.id) _
      rw [toEnd, List.map_append, List.filter_map]
      rfl

/-- All entries of a store have some property, unless they are made anew whenever they are read. -/
def Every (p : ε → Prop) : Store ε → Prop
  | .keyed s => ∀ e ∈ s.toList, p e
  | .table _ => True
  | .plain s => ∀ e ∈ s.entries, p e

theorem every_of_getAll {p : ε → Prop} {s : Store ε} {es : List ε} (h : s.getAll = .ok es)
    (hes : ∀ e ∈ es, p e) : s.Every p := by
  cases s with
  | keyed s | plain s =>
      cases h
      exact hes
  | table s => trivial

theorem every_update {p : ε → Prop} {e : ε} (he : p e) :
    Respects (Kept (Every p)) (update e) := by
  intro s hs
  rw [after, update, outcome_step]
  cases hupdate : s.updated e with
  | error f => exact hs
  | ok t =>
      cases s with
      | keyed s =>
          rcases map_eq_ok hupdate with ⟨s', hs', rfl⟩
          intro d hd
          rcases List.mem_map.mp hd with ⟨q, hq, rfl⟩
          rw [KeyedStore.update_eq_ok hs'] at hq
          rcases KeyedStore.mem_put hq with hq | ⟨hentry, -⟩
          · exact hs q.2 (List.mem_map_of_mem hq)
          · rw [hentry]
            exact he
      | table s =>
          rcases map_eq_ok hupdate with ⟨s', -, rfl⟩
          exact trivial
      | plain s =>
          cases hupdate
          exact List.forall_mem_append.mpr
            ⟨fun d hd => hs d (List.mem_filter.mp hd).1, List.forall_mem_singleton.mpr he⟩

end Store

/-!
## Neurons and synapses that are read
-/

theorem Neuron.id_of_make {id kind bias activation : Value} {n : Neuron}
    (h : make id kind bias activation = .ok n) : n.id = id := by
  rcases bind_eq_ok h with ⟨_, -, h⟩
  rcases bind_eq_ok h with ⟨_, -, h⟩
  split at h
  · split at h
    · cases h
      rfl
    · cases h
  · cases h

/-- The neurons of a tidy store are listed in the order of its keys. -/
theorem Store.keys_of_getAll {s : Store Neuron} {ns : List Neuron} (hs : s.Tidy)
    (h : s.getAll = .ok ns) : s.keys = ns.map Neuron.id := by
  cases s with
  | keyed s =>
      cases h
      show s.entries.map Prod.fst = (s.entries.map Prod.snd).map Neuron.id
      rw [List.map_map]
      exact List.map_congr_left hs
  | table s =>
      rcases s with ⟨rows⟩
      show rows.map (fun row => textValue (Tabular.key row)) = _
      exact (map_of_mapM_eq_ok (g := Neuron.id) (fun _ _ hn => Neuron.id_of_make hn) h).symm
  | plain s =>
      cases h
      rfl

/-- A synapse between values that can name something. -/
def Synapse.Linkable (s : Synapse) : Prop := s.source.isScalar = true ∧ s.target.isScalar = true

/-- The ends of a synapse that is made from a row are texts or missing. -/
theorem Store.linkable_of_getAll {s : Store Synapse} {ss : List Synapse}
    (hs : s.Every Synapse.Linkable) (h : s.getAll = .ok ss) : ∀ x ∈ ss, x.Linkable := by
  cases s with
  | keyed s | plain s =>
      cases h
      exact hs
  | table s =>
      intro x hx
      rcases exists_of_mem_mapM h hx with ⟨row, -, hrow⟩
      have hcell : ∀ cell, (textValue cell).isScalar = true := by
        intro cell
        cases cell <;> rfl
      rcases bind_eq_ok (r := (realValue row.weight).toFloat) hrow with ⟨w, -, hw⟩
      cases hw
      exact ⟨hcell row.source, hcell row.target⟩

end Plexus
