import Plexus.Proofs.Compiled.Index
import Plexus.Proofs.Numeric.Rows

/-!
# The cells of a compiled graph

The cell of two indices holds the weight of the last synapse whose ends have these indices, or
zero if there is none.  Synapses with an end that is no neuron have no cell.  If the identifiers
of the neurons are different texts, then the cell of two neurons holds the weight of the last
synapse that leads from the one to the other.
-/

namespace Plexus

namespace Synapse

/-- Whether a synapse leads from one neuron to another. -/
def joins (source target : Value) (s : Synapse) : Bool :=
  s.source.same source && s.target.same target

/-- The last of some synapses that leads from one neuron to another. -/
def lastJoining (ss : List Synapse) (source target : Value) : Option Synapse :=
  (ss.filter (joins source target)).getLast?

theorem joins_iff {s : Synapse} {source target : Value} (hs : s.source.IsText)
    (ht : s.target.IsText) (hsource : source.IsText) (htarget : target.IsText) :
    s.joins source target = true ↔ s.source = source ∧ s.target = target := by
  rw [joins, Bool.and_eq_true, Value.same_iff_eq hs hsource, Value.same_iff_eq ht htarget]

theorem mem_of_lastJoining {ss : List Synapse} {source target : Value} {s : Synapse}
    (h : lastJoining ss source target = some s) :
    s ∈ ss ∧ s.joins source target = true :=
  List.mem_filter.mp (List.mem_of_getLast? h)

theorem lastJoining_of_mem {ss : List Synapse} {source target : Value} {s : Synapse}
    (hs : s ∈ ss) (hjoins : s.joins source target = true) :
    ∃ d, lastJoining ss source target = some d := by
  have hmem : s ∈ ss.filter (joins source target) := List.mem_filter.mpr ⟨hs, hjoins⟩
  rw [lastJoining, List.getLast?_eq_some_getLast (List.ne_nil_of_mem hmem)]
  exact ⟨_, rfl⟩

theorem lastJoining_eq_none {ss : List Synapse} {source target : Value}
    (h : ss.any (joins source target) = false) :
    lastJoining ss source target = none := by
  have hnone : ss.filter (joins source target) = [] :=
    List.filter_eq_nil_iff.mpr (List.any_eq_false.mp h)
  rw [lastJoining, hnone, List.getLast?_nil]

/-- A change of weights does not change which synapse is the last one. -/
theorem lastJoining_map {f : Synapse → Synapse} {source target : Value}
    (hf : ∀ s, (f s).joins source target = s.joins source target) (ss : List Synapse) :
    lastJoining (ss.map f) source target = (lastJoining ss source target).map f := by
  have hcomp : joins source target ∘ f = joins source target := funext hf
  rw [lastJoining, List.filter_map, hcomp, List.getLast?_map, lastJoining]

/-- Taking away synapses that do not lead from one neuron to another does not change the last. -/
theorem lastJoining_filter {keep : Synapse → Bool} {ss : List Synapse} {source target : Value}
    (h : ∀ s ∈ ss, s.joins source target = true → keep s = true) :
    lastJoining (ss.filter keep) source target = lastJoining ss source target := by
  rw [lastJoining, List.filter_filter, lastJoining]
  congr 1
  apply List.filter_congr
  intro s hs
  cases hjoins : s.joins source target with
  | false => rfl
  | true => rw [h s hs hjoins, Bool.and_true]

theorem lastJoining_concat {s : Synapse} {source target : Value}
    (h : s.joins source target = false) (ss : List Synapse) :
    lastJoining (ss ++ [s]) source target = lastJoining ss source target := by
  rw [lastJoining, List.filter_append, List.filter_cons_of_neg (by rw [h]; decide),
    List.filter_nil, List.append_nil, lastJoining]

/-- What is last stays so as long as nothing new is put in and it is there itself. -/
theorem getLast?_of_sublist {γ : Type} {xs ys : List γ} {y : γ} (hsub : xs.Sublist ys)
    (hnodup : ys.Nodup) (hlast : ys.getLast? = some y) (hy : y ∈ xs) :
    xs.getLast? = some y := by
  rcases List.getLast?_eq_some_iff.mp hlast with ⟨front, rfl⟩
  rcases List.sublist_append_iff.mp hsub with ⟨ws, zs, rfl, hws, hzs⟩
  have hfront : y ∉ front := by
    intro hmem
    exact (List.nodup_append.mp hnodup).2.2 y hmem y List.mem_cons_self rfl
  cases hzs with
  | cons _ hnil =>
      rw [List.sublist_nil.mp hnil, List.append_nil] at hy
      exact absurd (hws.subset hy) hfront
  | cons_cons _ hnil =>
      rw [List.sublist_nil.mp hnil]
      exact List.getLast?_concat

/-- The last synapse between two neurons stays so if none between them is written. -/
theorem lastJoining_of_keeps {writes : Synapse → Bool} {ss ss' : List Synapse}
    {source target : Value} {s : Synapse}
    (hsub : (ss'.filter fun s => !writes s).Sublist ss) (hnodup : ss.Nodup)
    (hunwritten : ∀ s ∈ ss', s.joins source target = true → writes s = false) (hs : s ∈ ss')
    (hlast : lastJoining ss source target = some s) :
    lastJoining ss' source target = some s := by
  have hfilter : ss'.filter (joins source target) =
      (ss'.filter fun s => !writes s).filter (joins source target) := by
    rw [List.filter_filter]
    apply List.filter_congr
    intro d hd
    cases hjoins : d.joins source target with
    | false => rfl
    | true =>
        rw [hunwritten d hd hjoins]
        rfl
  have hmem : s ∈ ss'.filter (joins source target) :=
    List.mem_filter.mpr ⟨hs, (mem_of_lastJoining hlast).2⟩
  have hjoined : (ss'.filter (joins source target)).Sublist (ss.filter (joins source target)) := by
    rw [hfilter]
    exact hsub.filter _
  exact getLast?_of_sublist hjoined (hnodup.sublist List.filter_sublist) hlast hmem

end Synapse

namespace Compiled

/-- A cell of a square matrix belongs to one row and one column. -/
theorem cell_injective {size i j k t : Nat} (hi : i < size) (hk : k < size)
    (h : t * size + k = j * size + i) :
    t = j ∧ k = i := by
  have hsize : 0 < size := by omega
  have hrow := congrArg (· / size) h
  simp only [Nat.mul_comm _ size, Nat.mul_add_div hsize, Nat.div_eq_of_lt hk,
    Nat.div_eq_of_lt hi, Nat.add_zero] at hrow
  rw [hrow] at h
  exact ⟨hrow, Nat.add_left_cancel h⟩

/-- Whether a synapse leads from one index to another. -/
def leads (index : IndexTable) (source target : Nat) (s : Synapse) : Bool :=
  index.find? s.source == some source && index.find? s.target == some target

/-- The last of some synapses that leads from one index to another. -/
def lastLeading (index : IndexTable) (ss : List Synapse) (source target : Nat) :
    Option Synapse :=
  (ss.filter (leads index source target)).getLast?

theorem leads_iff {index : IndexTable} {source target : Nat} {s : Synapse} :
    leads index source target s = true ↔
      index.find? s.source = some source ∧ index.find? s.target = some target := by
  rw [leads, Bool.and_eq_true, beq_iff_eq, beq_iff_eq]

theorem lastLeading_concat (index : IndexTable) (ss : List Synapse) (s : Synapse)
    (source target : Nat) :
    lastLeading index (ss ++ [s]) source target =
      if leads index source target s then some s else lastLeading index ss source target := by
  unfold lastLeading
  rw [List.filter_append]
  split
  · next h => rw [List.filter_cons_of_pos h, List.filter_nil, List.getLast?_concat]
  · next h => rw [List.filter_cons_of_neg h, List.filter_nil, List.append_nil]

/-- What a table finds are indices below a size. -/
def Bounded (index : IndexTable) (size : Nat) : Prop :=
  ∀ id i, index.find? id = some i → i < size

/-- A synapse has the cell of two indices exactly if it leads from the one to the other. -/
theorem cellOf?_eq_some_iff_leads {index : IndexTable} {size i j : Nat} {s : Synapse}
    (hbounded : Bounded index size) (hi : i < size) :
    cellOf? index size s = some (j * size + i) ↔ leads index i j s = true := by
  rw [leads_iff]
  unfold cellOf?
  split
  · next k t hsource htarget =>
      rw [hsource, htarget, Option.some.injEq, Option.some.injEq, Option.some.injEq]
      constructor
      · intro h
        exact (cell_injective hi (hbounded s.source k hsource) h).symm
      · rintro ⟨rfl, rfl⟩
        rfl
  · next hnone =>
      constructor
      · intro h
        cases h
      · intro h
        exact absurd h.2 (hnone i j h.1)

variable {α : Type} [Scalar α]

theorem size_writeWeight (index : IndexTable) (size : Nat) (weights : Array α) (s : Synapse) :
    (writeWeight index size weights s).size = weights.size := by
  unfold writeWeight
  split
  · exact Array.size_setIfInBounds
  · rfl

theorem size_foldl_writeWeight (index : IndexTable) (size : Nat) (ss : List Synapse)
    (weights : Array α) :
    (ss.foldl (writeWeight index size) weights).size = weights.size := by
  induction ss generalizing weights with
  | nil => rfl
  | cons s rest ih => rw [List.foldl_cons, ih, size_writeWeight]

/-- Writing a synapse changes the cell of two indices exactly if it leads between them. -/
theorem getElem?_writeWeight {index : IndexTable} {size i j : Nat} {s : Synapse}
    {weights : Array α} (hbounded : Bounded index size) (hi : i < size) (hj : j < size)
    (hsize : weights.size = size * size) :
    (writeWeight index size weights s)[j * size + i]? =
      if leads index i j s then some (Scalar.ofFloat s.weight) else weights[j * size + i]? := by
  have hcell := cellOf?_eq_some_iff_leads (j := j) (s := s) hbounded hi
  by_cases hleads : leads index i j s = true
  · have hlt : j * size + i < weights.size := by
      rw [hsize]
      exact cell_lt hj hi
    rw [if_pos hleads, writeWeight, hcell.mpr hleads]
    exact Array.getElem?_setIfInBounds_self_of_lt hlt
  · rw [if_neg hleads, writeWeight]
    cases hother : cellOf? index size s with
    | none => rfl
    | some k =>
        have hne : k ≠ j * size + i := by
          intro heq
          rw [heq] at hother
          exact hleads (hcell.mp hother)
        exact Array.getElem?_setIfInBounds_ne hne

/-- After some synapses, the last one that leads between two indices is in their cell. -/
theorem getElem?_foldl_writeWeight {index : IndexTable} {size i j : Nat} {ss : List Synapse}
    {weights : Array α} (hbounded : Bounded index size) (hi : i < size) (hj : j < size)
    (hsize : weights.size = size * size) :
    (ss.foldl (writeWeight index size) weights)[j * size + i]? =
      match lastLeading index ss i j with
      | some s => some (Scalar.ofFloat s.weight)
      | none => weights[j * size + i]? := by
  induction ss using List.reverseRecOn with
  | nil => rfl
  | append_singleton front s ih =>
      have hfront := (size_foldl_writeWeight index size front weights).trans hsize
      rw [List.foldl_append, List.foldl_cons, List.foldl_nil,
        getElem?_writeWeight hbounded hi hj hfront, ih, lastLeading_concat]
      split
      · rfl
      · rfl

theorem size_weights_flatten (ns : List Neuron) (ss : List Synapse) :
    (flatten ns ss : Compiled α).weights.size = ns.length * ns.length :=
  (size_foldl_writeWeight _ _ ss _).trans (Scalar.size_zeros _)

theorem size_biases_flatten (ns : List Neuron) (ss : List Synapse) :
    (flatten ns ss : Compiled α).biases.size = ns.length := by
  rw [flatten, List.size_toArray, List.length_map]

/-- The weight of a synapse in a compiled graph; zero if there is none. -/
def weightOf (s : Option Synapse) : α :=
  match s with
  | some s => Scalar.ofFloat s.weight
  | none => Scalar.zero

/-- The weight between two indices is that of the last synapse between them. -/
theorem getElem?_weights_flatten {ns : List Neuron} {ss : List Synapse} {i j : Nat}
    (hbounded : Bounded (.ofIds (ns.map Neuron.id)) ns.length) (hi : i < ns.length)
    (hj : j < ns.length) :
    (flatten ns ss : Compiled α).weights[j * ns.length + i]? =
      some (weightOf (lastLeading (.ofIds (ns.map Neuron.id)) ss i j)) := by
  show (ss.foldl _ _)[_]? = _
  rw [getElem?_foldl_writeWeight hbounded hi hj (Scalar.size_zeros _)]
  cases lastLeading (.ofIds (ns.map Neuron.id)) ss i j with
  | some s => rfl
  | none =>
      show (Array.replicate _ _)[_]? = _
      rw [Array.getElem?_replicate, if_pos (cell_lt hj hi)]
      rfl

/-!
## Neurons with different identifiers
-/

theorem bounded_of_apart {ids : List Value} (hapart : ids.Pairwise fun u v => u.same v = false) :
    Bounded (.ofIds ids) ids.length := by
  intro id i h
  rcases IndexTable.find?_ofIds_eq_some hapart h with ⟨key, hkey, -⟩
  exact (List.getElem?_eq_some_iff.mp hkey).1

/-- A synapse leads from one index to another exactly if it joins the neurons there. -/
theorem leads_eq_joins {ids : List Value} {s : Synapse} {i j : Nat} {u v : Value}
    (hapart : ids.Pairwise fun u v => u.same v = false) (htext : ∀ u ∈ ids, u.IsText)
    (hs : s.source.IsText ∧ s.target.IsText) (hu : ids[i]? = some u) (hv : ids[j]? = some v) :
    leads (.ofIds ids) i j s = s.joins u v := by
  have huText : u.IsText := htext u (List.mem_of_getElem? hu)
  have hvText : v.IsText := htext v (List.mem_of_getElem? hv)
  rw [Bool.eq_iff_iff, leads_iff, Synapse.joins_iff hs.1 hs.2 huText hvText,
    IndexTable.find?_ofIds_iff hapart htext hs.1, IndexTable.find?_ofIds_iff hapart htext hs.2,
    hu, hv, Option.some.injEq, Option.some.injEq, eq_comm, eq_comm (a := v)]

/-- A synapse has the cell of two neurons exactly if it leads from the one to the other. -/
theorem cellOf?_eq_some_iff {ids : List Value} {s : Synapse} {i j : Nat} {u v : Value}
    (hapart : ids.Pairwise fun u v => u.same v = false) (htext : ∀ u ∈ ids, u.IsText)
    (hs : s.source.IsText ∧ s.target.IsText) (hu : ids[i]? = some u) (hv : ids[j]? = some v) :
    cellOf? (.ofIds ids) ids.length s = some (j * ids.length + i) ↔ s.joins u v = true := by
  have hi : i < ids.length := (List.getElem?_eq_some_iff.mp hu).1
  rw [cellOf?_eq_some_iff_leads (bounded_of_apart hapart) hi,
    leads_eq_joins hapart htext hs hu hv]

theorem lastLeading_eq_lastJoining {ids : List Value} {ss : List Synapse} {i j : Nat}
    {u v : Value} (hapart : ids.Pairwise fun u v => u.same v = false)
    (htext : ∀ u ∈ ids, u.IsText) (hss : ∀ s ∈ ss, s.source.IsText ∧ s.target.IsText)
    (hu : ids[i]? = some u) (hv : ids[j]? = some v) :
    lastLeading (.ofIds ids) ss i j = Synapse.lastJoining ss u v := by
  unfold lastLeading Synapse.lastJoining
  rw [List.filter_congr fun s hs => leads_eq_joins hapart htext (hss s hs) hu hv]

/-- The weight between two neurons is that of the last synapse between them. -/
theorem cell_weights_flatten {ns : List Neuron} {ss : List Synapse} {i j : Nat} {u v : Neuron}
    (hapart : ns.Pairwise fun u v => u.id.same v.id = false) (htext : ∀ n ∈ ns, n.id.IsText)
    (hss : ∀ s ∈ ss, s.source.IsText ∧ s.target.IsText)
    (hu : ns[i]? = some u) (hv : ns[j]? = some v) :
    Scalar.cell (flatten ns ss : Compiled α).weights (j * ns.length + i) =
      weightOf (Synapse.lastJoining ss u.id v.id) := by
  have hids : (ns.map Neuron.id).Pairwise fun u v => u.same v = false :=
    List.pairwise_map.mpr hapart
  have hidsText : ∀ id ∈ ns.map Neuron.id, id.IsText := by
    intro id hid
    rcases List.mem_map.mp hid with ⟨n, hn, rfl⟩
    exact htext n hn
  have huId : (ns.map Neuron.id)[i]? = some u.id := by
    rw [List.getElem?_map, hu, Option.map_some]
  have hvId : (ns.map Neuron.id)[j]? = some v.id := by
    rw [List.getElem?_map, hv, Option.map_some]
  have hi : i < ns.length := (List.getElem?_eq_some_iff.mp hu).1
  have hj : j < ns.length := (List.getElem?_eq_some_iff.mp hv).1
  have hbounded := bounded_of_apart hids
  rw [List.length_map] at hbounded
  rw [Scalar.cell, getElem?_weights_flatten hbounded hi hj, Option.getD_some,
    lastLeading_eq_lastJoining hids hidsText hss huId hvId]

theorem cell_biases_flatten {ns : List Neuron} {i : Nat} {n : Neuron} (ss : List Synapse)
    (hn : ns[i]? = some n) :
    Scalar.cell (flatten ns ss : Compiled α).biases i = Scalar.ofFloat n.bias := by
  show (ns.map fun n => Scalar.ofFloat n.bias).toArray[i]?.getD Scalar.zero = _
  rw [List.getElem?_toArray, List.getElem?_map, hn, Option.map_some, Option.getD_some]

end Compiled
end Plexus
