import Mathlib.Data.List.Nodup
import Plexus.Labelled.Convert
import Plexus.Proofs.Compiled.Simple

/-!
# Which synapses an adjacency list keeps

The targets of a node are listed in the order in which they came in, and an edge to a target that
is there already takes over its labels.  Of the synapses that start at a neuron, the list keeps
the last one to each target: an edge in it is a synapse that counts, and a synapse that counts is
an edge in it.
-/

namespace Plexus

namespace Synapse

/-- Puts a synapse in the place of the one to the same target, or at the end. -/
def supersede (s : Synapse) : List Synapse → List Synapse
  | [] => [s]
  | d :: rest => if d.target.same s.target then s :: rest else d :: supersede s rest

/-- The last of some synapses to each target, in the order in which the targets came in. -/
def latest (ss : List Synapse) : List Synapse := ss.foldl (fun ds s => supersede s ds) []

/-- Whether a synapse leads from a neuron to one of some neurons. -/
def starts (ids : List Value) (u : Value) (s : Synapse) : Bool :=
  s.source.same u && ids.any fun id => id.same s.target

/-- The synapses that the adjacency list of a neuron keeps. -/
def kept (ids : List Value) (ss : List Synapse) (u : Value) : List Synapse :=
  latest (ss.filter (starts ids u))

variable {ids : List Value} {s d : Synapse} {ds ss : List Synapse}

/-!
## Superseding
-/

theorem latest_concat (ss : List Synapse) (s : Synapse) :
    latest (ss ++ [s]) = supersede s (latest ss) := by
  rw [latest, List.foldl_append, List.foldl_cons, List.foldl_nil, latest]

theorem mem_of_mem_supersede (h : d ∈ supersede s ds) : d = s ∨ d ∈ ds := by
  induction ds with
  | nil => exact Or.inl (List.mem_singleton.mp h)
  | cons c rest ih =>
      rw [supersede] at h
      split at h
      · rcases List.mem_cons.mp h with h | h
        · exact Or.inl h
        · exact Or.inr (List.mem_cons_of_mem c h)
      · rcases List.mem_cons.mp h with rfl | h
        · exact Or.inr List.mem_cons_self
        · exact (ih h).imp_right (List.mem_cons_of_mem c)

theorem mem_of_mem_latest (h : d ∈ latest ss) : d ∈ ss := by
  induction ss using List.reverseRecOn with
  | nil => cases h
  | append_singleton ss s ih =>
      rw [latest_concat] at h
      rcases mem_of_mem_supersede h with rfl | h
      · exact List.mem_append_right ss List.mem_cons_self
      · exact List.mem_append_left [s] (ih h)

/-- To supersede replaces the one synapse to the same target, if there is one. -/
theorem mem_supersede_iff (htext : ∀ c ∈ ds, c.target.IsText)
    (hnodup : (ds.map Synapse.target).Nodup) :
    d ∈ supersede s ds ↔ d = s ∨ d ∈ ds ∧ d.target ≠ s.target := by
  induction ds with
  | nil => simp [supersede]
  | cons c rest ih =>
      have hc : c.target.IsText := htext c List.mem_cons_self
      have hrest : ∀ c ∈ rest, c.target.IsText := fun c hc => htext c (List.mem_cons_of_mem _ hc)
      rw [List.map_cons, List.nodup_cons] at hnodup
      rw [supersede]
      split
      · next hsame =>
        have htarget : s.target = c.target := Value.eq_of_text_same hc hsame
        have hother : d ∈ rest → d.target ≠ s.target := by
          intro hd heq
          rw [htarget] at heq
          exact hnodup.1 (heq ▸ List.mem_map_of_mem hd)
        rw [List.mem_cons, List.mem_cons]
        constructor
        · rintro (hd | hd)
          · exact Or.inl hd
          · exact Or.inr ⟨Or.inr hd, hother hd⟩
        · rintro (hd | ⟨hd | hd, hne⟩)
          · exact Or.inl hd
          · rw [hd] at hne
            exact absurd htarget.symm hne
          · exact Or.inr hd
      · next hsame =>
        have hne : c.target ≠ s.target := by
          intro heq
          rw [← heq, Value.same_iff_eq hc hc] at hsame
          exact hsame rfl
        rw [List.mem_cons, List.mem_cons, ih hrest hnodup.2]
        constructor
        · rintro (hd | hd | hd)
          · rw [hd]
            exact Or.inr ⟨Or.inl rfl, hne⟩
          · exact Or.inl hd
          · exact Or.inr ⟨Or.inr hd.1, hd.2⟩
        · rintro (hd | ⟨hd | hd, hd'⟩)
          · exact Or.inr (Or.inl hd)
          · exact Or.inl hd
          · exact Or.inr (Or.inr ⟨hd, hd'⟩)

theorem nodup_supersede (htext : ∀ c ∈ ds, c.target.IsText)
    (hnodup : (ds.map Synapse.target).Nodup) :
    ((supersede s ds).map Synapse.target).Nodup := by
  induction ds with
  | nil => exact List.nodup_singleton _
  | cons c rest ih =>
      have hc : c.target.IsText := htext c List.mem_cons_self
      have hrest : ∀ c ∈ rest, c.target.IsText := fun c hc => htext c (List.mem_cons_of_mem _ hc)
      rw [List.map_cons, List.nodup_cons] at hnodup
      rw [supersede]
      split
      · next hsame =>
        rw [List.map_cons, List.nodup_cons, Value.eq_of_text_same hc hsame]
        exact hnodup
      · next hsame =>
        rw [List.map_cons, List.nodup_cons]
        constructor
        · intro hmem
          rcases List.mem_map.mp hmem with ⟨d, hd, hdc⟩
          rcases mem_of_mem_supersede hd with rfl | hd
          · rw [hdc, Value.same_iff_eq hc hc] at hsame
            exact hsame rfl
          · exact hnodup.1 (hdc ▸ List.mem_map_of_mem hd)
        · exact ih hrest hnodup.2

theorem nodup_latest (htext : ∀ s ∈ ss, s.target.IsText) :
    ((latest ss).map Synapse.target).Nodup := by
  induction ss using List.reverseRecOn with
  | nil => exact List.nodup_nil
  | append_singleton ss s ih =>
      have hfront : ∀ s ∈ ss, s.target.IsText := fun s hs => htext s (List.mem_append_left _ hs)
      rw [latest_concat]
      exact nodup_supersede (fun c hc => hfront c (mem_of_mem_latest hc)) (ih hfront)

/-- What is kept is the last synapse to its target. -/
theorem mem_latest_iff (htext : ∀ s ∈ ss, s.target.IsText) :
    d ∈ latest ss ↔ (ss.filter fun s => s.target.same d.target).getLast? = some d := by
  induction ss using List.reverseRecOn with
  | nil => simp [latest]
  | append_singleton ss s ih =>
      have hfront : ∀ s ∈ ss, s.target.IsText := fun s hs => htext s (List.mem_append_left _ hs)
      have hs : s.target.IsText := htext s (List.mem_append_right ss List.mem_cons_self)
      rw [latest_concat, mem_supersede_iff (fun c hc => hfront c (mem_of_mem_latest hc))
        (nodup_latest hfront), ih hfront, List.filter_append]
      by_cases hsame : s.target.same d.target = true
      · have htarget : d.target = s.target := Value.eq_of_text_same hs hsame
        rw [List.filter_cons, if_pos hsame, List.filter_nil, List.getLast?_concat,
          Option.some.injEq, eq_comm]
        simp [htarget]
      · have hne : d.target ≠ s.target := by
          intro heq
          rw [heq, Value.same_iff_eq hs hs] at hsame
          exact hsame rfl
        have hds : d ≠ s := fun heq => hne (congrArg Synapse.target heq)
        rw [List.filter_cons, if_neg hsame, List.filter_nil, List.append_nil]
        simp [hds, hne]

/-!
## The adjacency list of a neuron
-/

theorem any_same_iff (htext : ∀ u ∈ ids, u.IsText) {v : Value} :
    (ids.any fun id => id.same v) = true ↔ v ∈ ids := by
  rw [List.any_eq_true]
  constructor
  · rintro ⟨u, hu, hsame⟩
    rw [Value.eq_of_text_same (htext u hu) hsame]
    exact hu
  · intro hv
    exact ⟨v, hv, (Value.same_iff_eq (htext v hv) (htext v hv)).mpr rfl⟩

theorem starts_iff (htext : ∀ u ∈ ids, u.IsText) {u : Value} (hu : u.IsText) :
    starts ids u s = true ↔ s.source = u ∧ s.target ∈ ids := by
  rw [starts, Bool.and_eq_true, any_same_iff htext]
  constructor
  · rintro ⟨hsource, htarget⟩
    exact ⟨Value.eq_of_same_text hu hsource, htarget⟩
  · rintro ⟨hsource, htarget⟩
    rw [hsource]
    exact ⟨(Value.same_iff_eq hu hu).mpr rfl, htarget⟩

theorem starts_of_mem_kept {u : Value} (h : d ∈ kept ids ss u) : starts ids u d = true :=
  (List.mem_filter.mp (mem_of_mem_latest h)).2

theorem nodup_kept (hss : ∀ s ∈ ss, s.target.IsText) (u : Value) :
    ((kept ids ss u).map Synapse.target).Nodup :=
  nodup_latest fun s hs => hss s (List.mem_filter.mp hs).1

/-- The list of a neuron keeps the synapse that counts to each neuron, and nothing else. -/
theorem mem_kept_iff (htext : ∀ u ∈ ids, u.IsText) (hss : ∀ s ∈ ss, s.target.IsText) {u : Value}
    (hu : u.IsText) :
    d ∈ kept ids ss u ↔
      d.source = u ∧ d.target ∈ ids ∧ lastJoining ss u d.target = some d := by
  have hlatest : d ∈ kept ids ss u ↔
      ((ss.filter (starts ids u)).filter fun s => s.target.same d.target).getLast? = some d :=
    mem_latest_iff fun s hs => hss s (List.mem_filter.mp hs).1
  have hjoined : d.target ∈ ids → ((ss.filter (starts ids u)).filter fun s =>
      s.target.same d.target) = ss.filter (joins u d.target) := by
    intro htarget
    rw [List.filter_filter]
    apply List.filter_congr
    intro s hs
    have hd : d.target.IsText := htext _ htarget
    rw [Bool.eq_iff_iff, Bool.and_eq_true, joins, Bool.and_eq_true, starts_iff htext hu,
      Value.same_iff_eq (hss s hs) hd]
    constructor
    · rintro ⟨hsd, hsource, -⟩
      rw [hsource]
      exact ⟨(Value.same_iff_eq hu hu).mpr rfl, hsd⟩
    · rintro ⟨hsource, hsd⟩
      rw [hsd]
      exact ⟨rfl, Value.eq_of_same_text hu hsource, htarget⟩
  constructor
  · intro h
    rcases (starts_iff htext hu).mp (starts_of_mem_kept h) with ⟨hsource, htarget⟩
    rw [hlatest, hjoined htarget] at h
    exact ⟨hsource, htarget, h⟩
  · rintro ⟨-, htarget, hlast⟩
    rw [hlatest, hjoined htarget]
    exact hlast

/-- A synapse that starts elsewhere, or leads to no neuron, leaves the list as it is. -/
theorem kept_concat (ids : List Value) (ss : List Synapse) (s : Synapse) (u : Value) :
    kept ids (ss ++ [s]) u =
      if starts ids u s then supersede s (kept ids ss u) else kept ids ss u := by
  rw [kept, List.filter_append]
  split
  · next h => rw [List.filter_cons_of_pos h, List.filter_nil, latest_concat, kept]
  · next h => rw [List.filter_cons_of_neg h, List.filter_nil, List.append_nil, kept]

end Synapse

namespace LabelledGraph

/-- The edge of a synapse in the adjacency list of its source. -/
def entry (s : Synapse) : Value × Bundle := (s.target, [(.int 0, synapseLabels s)])

theorem put_synapse (s d : Synapse) :
    Bundle.put (.int 0) (synapseLabels s) [(.int 0, synapseLabels d)] =
      [(.int 0, synapseLabels s)] := by
  have hkey : (Value.int 0).same (.int 0) = true := by simp [Value.same, Value.sameNumber,
    Value.number?]
  rw [Bundle.put, if_pos hkey]
  simp [Labels.merge, synapseLabels, Value.setField]

/-- An edge is put into an adjacency list as its synapse is among those that are kept. -/
theorem putTarget_map_entry {ds : List Synapse} (hds : ∀ d ∈ ds, d.target.IsText) (s : Synapse) :
    putTarget (some (.int 0)) (synapseLabels s) s.target (ds.map entry) =
      (Synapse.supersede s ds).map entry := by
  induction ds with
  | nil => rfl
  | cons d rest ih =>
      have hrest : ∀ d ∈ rest, d.target.IsText := fun d hd => hds d (List.mem_cons_of_mem _ hd)
      rw [List.map_cons, entry, putTarget, Synapse.supersede]
      split
      · next hsame =>
        have htarget : s.target = d.target := Value.eq_of_text_same (hds d List.mem_cons_self) hsame
        rw [List.map_cons, entry, Option.getD_some, put_synapse, htarget]
      · rw [List.map_cons, ih hrest, entry]

end LabelledGraph
end Plexus
