import Plexus.Compiled.Projection
import Plexus.Proofs.Compiled.Simple

/-!
# What a projection says of a compiled graph

A projection numbers the neurons, leaves out the synapses that lead from or to no neuron, and draws
parallel synapses as parallel edges.  The compiler does each of these for itself, and they agree: a
cell of the compiled matrix has the weight of the last edge that is drawn there.
-/

namespace Plexus

open Value (IsText)

/-- An edge is drawn for a synapse between two neurons. -/
structure ProjectedEdge.Draws (ids : List Value) (s : Synapse) (edge : ProjectedEdge) : Prop where
  id : edge.id = s.id
  weight : edge.weight = s.weight
  source : ids[edge.source]? = some s.source
  target : ids[edge.target]? = some s.target

namespace Projection

variable {α : Type} [Scalar α]

/-- Whether an edge is drawn from one index to another. -/
def between (i j : Nat) (edge : ProjectedEdge) : Bool := edge.source == i && edge.target == j

/-- The last edge from one index to another. -/
def lastEdge (p : Projection) (i j : Nat) : Option ProjectedEdge :=
  (p.edges.filter (between i j)).getLast?

/-- The weight that a projection shows between two indices, in single precision. -/
def weightAt (p : Projection) (i j : Nat) : α :=
  match p.lastEdge i j with
  | some edge => Scalar.ofFloat edge.weight
  | none => Scalar.zero

open Classical in
/-- A projection of some stored synapses shows what is compiled. -/
structure Describes (p : Projection) (ss : List Synapse) (c : Compiled α) : Prop where
  nodes : p.nodes.map (fun node => (node.id, node.index)) = c.ids.zipIdx
  indices : ∀ node ∈ p.nodes, c.index.find? node.id = some node.index
  edges : List.Forall₂ (ProjectedEdge.Draws c.ids)
    (ss.filter fun s => decide (s.source ∈ c.ids ∧ s.target ∈ c.ids)) p.edges
  size : c.ids.length = c.size
  cells : c.weights.size = c.size * c.size
  weights : ∀ i j, i < c.size → j < c.size →
    c.weights[j * c.size + i]? = some (p.weightAt i j)

omit [Scalar α] in
theorem edge?_eq_some_iff {index : IndexTable} {s : Synapse} {edge : ProjectedEdge} :
    edge? index s = some edge ↔ Compiled.leads index edge.source edge.target s = true ∧
      edge.id = s.id ∧ edge.weight = s.weight := by
  rw [Compiled.leads_iff, edge?]
  rcases edge with ⟨id, source, target, weight⟩
  split
  · next i j hsource htarget =>
    rw [hsource, htarget]
    simp only [Option.some.injEq, ProjectedEdge.mk.injEq]
    tauto
  · next hnone =>
    constructor
    · intro h
      cases h
    · rintro ⟨⟨hsource, htarget⟩, -⟩
      exact absurd htarget (hnone _ _ hsource)

/-- The edges from one index to another are those of the synapses that lead there, in order. -/
theorem filter_edges (index : IndexTable) (ss : List Synapse) (i j : Nat) :
    (ss.filterMap (edge? index)).filter (between i j) =
      (ss.filter (Compiled.leads index i j)).map fun s => ⟨s.id, i, j, s.weight⟩ := by
  induction ss with
  | nil => rfl
  | cons s rest ih =>
      by_cases hleads : Compiled.leads index i j s = true
      · have hedge : edge? index s = some ⟨s.id, i, j, s.weight⟩ :=
          edge?_eq_some_iff.mpr ⟨hleads, rfl, rfl⟩
        have hbetween : between i j ⟨s.id, i, j, s.weight⟩ = true := by simp [between]
        rw [List.filterMap_cons_some hedge, List.filter_cons_of_pos hbetween,
          List.filter_cons_of_pos hleads, List.map_cons, ih]
      · rw [List.filter_cons_of_neg hleads, ← ih]
        cases hedge : edge? index s with
        | none => rw [List.filterMap_cons_none hedge]
        | some edge =>
            rw [List.filterMap_cons_some hedge, List.filter_cons_of_neg]
            rw [between, Bool.and_eq_true, beq_iff_eq, beq_iff_eq]
            rintro ⟨rfl, rfl⟩
            exact hleads (edge?_eq_some_iff.mp hedge).1

/-- The weight that is shown between two indices is that of the synapse that counts there. -/
theorem weightAt_ofGraph (ns : List Neuron) (ss : List Synapse) (i j : Nat) :
    ((ofGraph ns ss).weightAt i j : α) =
      Compiled.weightOf (Compiled.lastLeading (.ofIds (ns.map Neuron.id)) ss i j) := by
  rw [weightAt, lastEdge, ofGraph, filter_edges, List.getLast?_map, Compiled.lastLeading]
  cases (ss.filter _).getLast? with
  | none => rfl
  | some s => rfl

/-- An edge is drawn for just the synapses between neurons. -/
theorem draws_edges {ids : List Value} {p : Synapse → Bool} (htext : ∀ u ∈ ids, u.IsText)
    (hp : ∀ s, p s = true ↔ s.source ∈ ids ∧ s.target ∈ ids) (ss : List Synapse) :
    List.Forall₂ (ProjectedEdge.Draws ids) (ss.filter p)
      (ss.filterMap (edge? (.ofIds ids))) := by
  have hfound : ∀ {id i}, (IndexTable.ofIds ids).find? id = some i ↔ IndexTable.LastAt ids id i :=
    IndexTable.find?_ofIds_iff_lastAt htext
  induction ss with
  | nil => exact .nil
  | cons s rest ih =>
      by_cases hends : p s = true
      · have hmem := (hp s).mp hends
        rcases IndexTable.exists_lastAt hmem.1 with ⟨i, hi⟩
        rcases IndexTable.exists_lastAt hmem.2 with ⟨j, hj⟩
        have hedge : edge? (.ofIds ids) s = some ⟨s.id, i, j, s.weight⟩ :=
          edge?_eq_some_iff.mpr
            ⟨Compiled.leads_iff.mpr ⟨hfound.mpr hi, hfound.mpr hj⟩, rfl, rfl⟩
        rw [List.filter_cons_of_pos hends, List.filterMap_cons_some hedge]
        exact .cons ⟨rfl, rfl, hi.1, hj.1⟩ ih
      · have hedge : edge? (.ofIds ids) s = none := by
          rw [Option.eq_none_iff_forall_ne_some]
          intro edge hedge
          rcases Compiled.leads_iff.mp (edge?_eq_some_iff.mp hedge).1 with ⟨hsource, htarget⟩
          exact hends ((hp s).mpr ⟨List.mem_of_getElem? (hfound.mp hsource).1,
            List.mem_of_getElem? (hfound.mp htarget).1⟩)
        rw [List.filter_cons_of_neg hends, List.filterMap_cons_none hedge]
        exact ih

open Classical in
theorem describes_ofGraph {ns : List Neuron} (ss : List Synapse) (htext : ∀ n ∈ ns, n.id.IsText)
    (hnodup : (ns.map Neuron.id).Nodup) :
    (ofGraph ns ss).Describes ss (Compiled.flatten ns ss : Compiled α) := by
  have htext' : ∀ u ∈ ns.map Neuron.id, u.IsText := fun _ => text_of_mem_ids htext
  constructor
  case nodes =>
    show (List.map _ (List.map _ _)) = (ns.map Neuron.id).zipIdx
    rw [List.map_map, List.zipIdx_map]
    rfl
  case indices =>
    intro node hnode
    rcases List.mem_map.mp hnode with ⟨⟨n, i⟩, hmem, rfl⟩
    refine (IndexTable.find?_ofIds_iff_getElem? htext' hnodup).mpr ?_
    rw [List.getElem?_map, List.mem_zipIdx_iff_getElem?.mp hmem]
    rfl
  case edges => exact draws_edges htext' (fun _ => decide_eq_true_iff) ss
  case size => exact List.length_map _
  case cells => exact Compiled.size_weights_flatten ns ss
  case weights =>
    intro i j hi hj
    have hbounded := Compiled.bounded_of_text htext'
    rw [List.length_map] at hbounded
    rw [weightAt_ofGraph]
    exact Compiled.getElem?_weights_flatten hbounded hi hj

end Projection
end Plexus
