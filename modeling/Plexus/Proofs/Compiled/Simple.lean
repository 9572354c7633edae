import Plexus.Proofs.Compiled.Snapshot
import Plexus.Proofs.Numeric.Rows

/-!
# Graphs whose neurons have different names

If no two neurons share a name, then an index stands for one name, and a compiled graph is known
once it is known which synapse counts between any two of its indices.  If, moreover, no two
synapses lead from one neuron to the same other one, then the one that counts is the only one.
-/

namespace Plexus

variable {ids : List Value}

theorem text_of_mem_ids {ns : List Neuron} (htext : ∀ n ∈ ns, n.id.IsText) {u : Value}
    (hu : u ∈ ns.map Neuron.id) : u.IsText := by
  rcases List.mem_map.mp hu with ⟨n, hn, rfl⟩
  exact htext n hn

/-- Different texts are different keys. -/
theorem apart_of_nodup (htext : ∀ u ∈ ids, u.IsText) (hnodup : ids.Nodup) :
    ids.Pairwise fun u v => u.same v = false := by
  apply hnodup.imp_of_mem
  intro u v hu hv hne
  rw [Bool.eq_false_iff, ne_eq, Value.same_iff_eq (htext u hu) (htext v hv)]
  exact hne

/-- Where no name repeats, an identifier has the index at which it stands. -/
theorem IndexTable.find?_ofIds_iff_getElem? (htext : ∀ u ∈ ids, u.IsText) (hnodup : ids.Nodup)
    {id : Value} {i : Nat} :
    find? (ofIds ids) id = some i ↔ ids[i]? = some id :=
  (find?_ofIds_iff_lastAt htext).trans ⟨And.left, lastAt_of_nodup hnodup⟩

/-- A name stands at one index only. -/
theorem index_unique (hnodup : ids.Nodup) {id : Value} {i j : Nat} (hi : ids[i]? = some id)
    (hj : ids[j]? = some id) : i = j :=
  (List.getElem?_inj (List.getElem?_eq_some_iff.mp hi).1 hnodup).mp (hi.trans hj.symm)

/-- Where at most one item has a property, the last that has it is the one that does. -/
theorem getLast?_filter_eq_some_iff {β : Type} {p : β → Bool} {xs : List β} {x : β}
    (h : xs.Pairwise fun y z => ¬(p y = true ∧ p z = true)) :
    (xs.filter p).getLast? = some x ↔ x ∈ xs ∧ p x = true := by
  constructor
  · intro hlast
    exact List.mem_filter.mp (List.mem_of_getLast? hlast)
  · intro hx
    have hmem : x ∈ xs.filter p := List.mem_filter.mpr hx
    have hp : ∀ y ∈ xs.filter p, p y = true := fun y hy => (List.mem_filter.mp hy).2
    have hpairs := h.sublist (List.filter_sublist (p := p))
    cases hfilter : xs.filter p with
    | nil =>
        rw [hfilter] at hmem
        cases hmem
    | cons y rest =>
        rw [hfilter] at hmem hp hpairs
        cases rest with
        | nil => rw [List.mem_singleton.mp hmem, List.getLast?_singleton]
        | cons z rest =>
            have hy : p y = true := hp y List.mem_cons_self
            have hz : p z = true := hp z (List.mem_cons_of_mem y List.mem_cons_self)
            exact absurd ⟨hy, hz⟩ ((List.pairwise_cons.mp hpairs).1 z List.mem_cons_self)

namespace Compiled

/-- A synapse leads from one index to another if its ends are the names that stand there. -/
theorem leads_ofIds_iff {s : Synapse} {u v : Value} {i j : Nat} (htext : ∀ u ∈ ids, u.IsText)
    (hnodup : ids.Nodup) (hu : ids[i]? = some u) (hv : ids[j]? = some v) :
    leads (.ofIds ids) i j s = true ↔ s.source = u ∧ s.target = v := by
  rw [leads_iff, IndexTable.find?_ofIds_iff_getElem? htext hnodup,
    IndexTable.find?_ofIds_iff_getElem? htext hnodup, hu, hv, Option.some.injEq,
    Option.some.injEq, eq_comm, eq_comm (a := v)]

/-- The last synapse between two indices is the last between the neurons there. -/
theorem lastLeading_eq_lastJoining_of_nodup {ss : List Synapse} {u v : Value} {i j : Nat}
    (htext : ∀ u ∈ ids, u.IsText) (hnodup : ids.Nodup) (hu : ids[i]? = some u)
    (hv : ids[j]? = some v) :
    lastLeading (.ofIds ids) ss i j = Synapse.lastJoining ss u v := by
  have huText := htext u (List.mem_of_getElem? hu)
  have hvText := htext v (List.mem_of_getElem? hv)
  have hjoins : leads (.ofIds ids) i j = Synapse.joins u v := by
    funext s
    rw [Bool.eq_iff_iff, leads_ofIds_iff htext hnodup hu hv, Synapse.joins, Bool.and_eq_true]
    constructor
    · rintro ⟨rfl, rfl⟩
      exact ⟨(Value.same_iff_eq huText huText).mpr rfl, (Value.same_iff_eq hvText hvText).mpr rfl⟩
    · rintro ⟨hsource, htarget⟩
      exact ⟨Value.eq_of_same_text huText hsource, Value.eq_of_same_text hvText htarget⟩
  rw [lastLeading, Synapse.lastJoining, hjoins]

/-- No two synapses lead from one neuron to the same other one. -/
def Single (ids : List Value) (ss : List Synapse) : Prop :=
  ss.Pairwise fun s d =>
    ¬(s.source ∈ ids ∧ s.target ∈ ids ∧ d.source = s.source ∧ d.target = s.target)

/-- Without parallel synapses, the one that counts between two neurons is the one there is. -/
theorem lastLeading_eq_some_iff {ss : List Synapse} {s : Synapse} {u v : Value} {i j : Nat}
    (htext : ∀ u ∈ ids, u.IsText) (hnodup : ids.Nodup) (hsingle : Single ids ss)
    (hu : ids[i]? = some u) (hv : ids[j]? = some v) :
    lastLeading (.ofIds ids) ss i j = some s ↔ s ∈ ss ∧ s.source = u ∧ s.target = v := by
  have hleads {s : Synapse} := leads_ofIds_iff (s := s) htext hnodup hu hv
  have honce : ss.Pairwise fun s d =>
      ¬(leads (.ofIds ids) i j s = true ∧ leads (.ofIds ids) i j d = true) := by
    apply hsingle.imp
    rintro s d hne ⟨hs, hd⟩
    rw [hleads] at hs hd
    apply hne
    rw [hs.1, hs.2]
    exact ⟨List.mem_of_getElem? hu, List.mem_of_getElem? hv, hd⟩
  rw [lastLeading, getLast?_filter_eq_some_iff honce, hleads]

variable {α : Type} [Scalar α]

/-- Graphs with the same neurons are compiled alike if the same synapses count in them. -/
theorem flatten_congr {ns : List Neuron} {ss ss' : List Synapse} (htext : ∀ n ∈ ns, n.id.IsText)
    (h : ∀ i j, i < ns.length → j < ns.length →
      lastLeading (.ofIds (ns.map Neuron.id)) ss' i j =
        lastLeading (.ofIds (ns.map Neuron.id)) ss i j) :
    (flatten ns ss' : Compiled α) = flatten ns ss := by
  have hbounded := bounded_of_text fun _ => text_of_mem_ids htext
  rw [List.length_map] at hbounded
  have hweights : (flatten ns ss' : Compiled α).weights = (flatten ns ss : Compiled α).weights := by
    refine eq_of_rows (Nat.le_of_eq (size_weights_flatten _ _))
      (Nat.le_of_eq (size_weights_flatten _ _)) fun j hj i hi => ?_
    rw [getElem?_weights_flatten hbounded hi hj, getElem?_weights_flatten hbounded hi hj,
      h i j hi hj]
  exact congrArg (fun weights => { (flatten ns ss : Compiled α) with weights }) hweights

end Compiled

/-!
## A cell for each synapse
-/

namespace Synapse

/-- Where a synapse leads from and to. -/
def ends (s : Synapse) : Value × Value := (s.source, s.target)

end Synapse

namespace Compiled

variable {α : Type} [Scalar α]

/-- A compiled graph in which each synapse has a cell with its weight that no other one writes. -/
structure OwnCells (ss : List Synapse) (c : Compiled α) : Prop where
  resolved : ∀ s ∈ ss, ∃ k < c.weights.size, cellOf? c.index c.size s = some k
  distinct : (ss.map (cellOf? c.index c.size)).Nodup
  weights : ∀ s ∈ ss, c.weight s.source s.target = .ok (Scalar.ofFloat s.weight)

variable {ns : List Neuron} {ss : List Synapse} {s d : Synapse}

/-- Two synapses between known neurons write the same cell if they have the same ends. -/
theorem cellOf?_eq_iff (htext : ∀ n ∈ ns, n.id.IsText) (hnodup : (ns.map Neuron.id).Nodup)
    (hs : s.source ∈ ns.map Neuron.id ∧ s.target ∈ ns.map Neuron.id) :
    cellOf? (.ofIds (ns.map Neuron.id)) ns.length s =
        cellOf? (.ofIds (ns.map Neuron.id)) ns.length d ↔ s.ends = d.ends := by
  have hids : ∀ u ∈ ns.map Neuron.id, u.IsText := fun _ => text_of_mem_ids htext
  have hbounded := bounded_of_text hids
  rw [List.length_map] at hbounded
  rcases List.mem_iff_getElem?.mp hs.1 with ⟨i, hi⟩
  rcases List.mem_iff_getElem?.mp hs.2 with ⟨j, hj⟩
  have hlt : i < ns.length := by
    rw [← List.length_map Neuron.id]
    exact (List.getElem?_eq_some_iff.mp hi).1
  have hcell : cellOf? (.ofIds (ns.map Neuron.id)) ns.length s = some (j * ns.length + i) :=
    (cellOf?_eq_some_iff_leads hbounded hlt).mpr
      ((leads_ofIds_iff hids hnodup hi hj).mpr ⟨rfl, rfl⟩)
  rw [hcell, eq_comm, cellOf?_eq_some_iff_leads hbounded hlt, leads_ofIds_iff hids hnodup hi hj,
    eq_comm (a := s.ends), Synapse.ends, Synapse.ends, Prod.mk.injEq]

/-- Synapses between known neurons have cells of their own exactly if none are parallel. -/
theorem ownCells_flatten_iff (htext : ∀ n ∈ ns, n.id.IsText) (hnodup : (ns.map Neuron.id).Nodup)
    (hends : ∀ s ∈ ss, s.source ∈ ns.map Neuron.id ∧ s.target ∈ ns.map Neuron.id) :
    OwnCells ss (flatten ns ss : Compiled α) ↔ (ss.map Synapse.ends).Nodup := by
  have hids : ∀ u ∈ ns.map Neuron.id, u.IsText := fun _ => text_of_mem_ids htext
  have hscalar : ∀ u ∈ ns.map Neuron.id, u.isScalar = true :=
    fun u hu => (Value.idClass_isText.isKey u (hids u hu)).1
  have hsnap : Snapshot ns ss (flatten ns ss : Compiled α) :=
    snapshot_flatten htext fun s hs => ⟨hscalar _ (hends s hs).1, hscalar _ (hends s hs).2⟩
  constructor
  · intro h
    have hcells := List.pairwise_map.mp h.distinct
    apply List.pairwise_map.mpr
    apply hcells.imp_of_mem
    intro s d hs _ hne heq
    exact hne ((cellOf?_eq_iff htext hnodup (hends s hs)).mpr heq)
  · intro h
    have happart := List.pairwise_map.mp h
    have hsingle : Single (ns.map Neuron.id) ss := by
      apply happart.imp
      rintro s d hne ⟨-, -, hsource, htarget⟩
      exact hne (Prod.ext hsource.symm htarget.symm)
    have hplace : ∀ s ∈ ss, ∃ i j, (ns.map Neuron.id)[i]? = some s.source ∧
        (ns.map Neuron.id)[j]? = some s.target ∧ i < ns.length ∧ j < ns.length := by
      intro s hs
      rcases List.mem_iff_getElem?.mp (hends s hs).1 with ⟨i, hi⟩
      rcases List.mem_iff_getElem?.mp (hends s hs).2 with ⟨j, hj⟩
      have hilt := (List.getElem?_eq_some_iff.mp hi).1
      have hjlt := (List.getElem?_eq_some_iff.mp hj).1
      rw [List.length_map] at hilt hjlt
      exact ⟨i, j, hi, hj, hilt, hjlt⟩
    constructor
    case resolved =>
      intro s hs
      rcases hplace s hs with ⟨i, j, hi, hj, hilt, hjlt⟩
      have hbounded := bounded_of_text hids
      rw [List.length_map] at hbounded
      refine ⟨j * ns.length + i, ?_, ?_⟩
      · rw [size_weights_flatten]
        exact cell_lt hjlt hilt
      · exact (cellOf?_eq_some_iff_leads hbounded hilt).mpr
          ((leads_ofIds_iff hids hnodup hi hj).mpr ⟨rfl, rfl⟩)
    case distinct =>
      apply List.pairwise_map.mpr
      apply happart.imp_of_mem
      intro s d hs _ hne heq
      exact hne ((cellOf?_eq_iff htext hnodup (hends s hs)).mp heq)
    case weights =>
      intro s hs
      rcases hplace s hs with ⟨i, j, hi, hj, -, -⟩
      have hlast : lastLeading (.ofIds (ns.map Neuron.id)) ss i j = some s :=
        (lastLeading_eq_some_iff hids hnodup hsingle hi hj).mpr ⟨hs, rfl, rfl⟩
      rw [hsnap.weight_eq (hscalar _ (hends s hs).1) (hscalar _ (hends s hs).2)
        (IndexTable.lastAt_of_nodup hnodup hi) (IndexTable.lastAt_of_nodup hnodup hj)]
      show Except.ok (weightOf (lastLeading (.ofIds (ns.map Neuron.id)) ss i j)) = _
      rw [hlast]
      rfl

end Compiled
end Plexus
