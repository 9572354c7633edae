import Plexus.Proofs.Compiled.Flatten
import Plexus.Proofs.Numeric.Storage

/-!
# Compiled graphs with other parameters

Graphs that differ in parameters only are compiled to the same but for the biases and the cells
of synapses; all other cells are zero.  So whether two of them match is decided by the biases
and these cells, and a network that runs the parameters of the one runs those of the other
exactly if they match.
-/

namespace Plexus
namespace Compiled

open Scalar (Like)

variable {α : Type} [Scalar α]

/-!
## Cells with a synapse
-/

/-- The cells that some synapses have. -/
def linked (index : IndexTable) (size : Nat) (ss : List Synapse) : List Nat :=
  ss.filterMap (cellOf? index size)

theorem getElem?_writeWeight_of_cell {index : IndexTable} {size k : Nat} {s : Synapse}
    {weights : Array α} (hcell : cellOf? index size s = some k) (hk : k < weights.size) :
    (writeWeight index size weights s)[k]? = some (Scalar.ofFloat s.weight) := by
  rw [writeWeight, hcell]
  exact Array.getElem?_setIfInBounds_self_of_lt hk

theorem getElem?_writeWeight_of_ne {index : IndexTable} {size k : Nat} {s : Synapse}
    (hcell : cellOf? index size s ≠ some k) (weights : Array α) :
    (writeWeight index size weights s)[k]? = weights[k]? := by
  unfold writeWeight
  split
  · next i hi =>
    apply Array.getElem?_setIfInBounds_ne
    rintro rfl
    exact hcell hi
  · rfl

/-- Writing synapses leaves all cells but theirs alone. -/
theorem getElem?_foldl_of_not_linked {index : IndexTable} {size k : Nat} {ss : List Synapse}
    (h : k ∉ linked index size ss) (weights : Array α) :
    (ss.foldl (writeWeight index size) weights)[k]? = weights[k]? := by
  induction ss generalizing weights with
  | nil => rfl
  | cons s rest ih =>
      have hcell : cellOf? index size s ≠ some k := by
        intro hk
        exact h (List.mem_filterMap.mpr ⟨s, List.mem_cons_self, hk⟩)
      have hrest : k ∉ linked index size rest := by
        intro hk
        rcases List.mem_filterMap.mp hk with ⟨d, hd, hk⟩
        exact h (List.mem_filterMap.mpr ⟨d, List.mem_cons_of_mem s hd, hk⟩)
      rw [List.foldl_cons, ih hrest, getElem?_writeWeight_of_ne hcell]

/-- Of the synapses with a cell, one is left in it. -/
theorem exists_getElem?_foldl_of_linked {index : IndexTable} {size k : Nat} {ss : List Synapse}
    {weights : Array α} (h : k ∈ linked index size ss) (hk : k < weights.size) :
    ∃ s ∈ ss, cellOf? index size s = some k ∧
      (ss.foldl (writeWeight index size) weights)[k]? = some (Scalar.ofFloat s.weight) := by
  induction ss generalizing weights with
  | nil => exact absurd h List.not_mem_nil
  | cons s rest ih =>
      rw [List.foldl_cons]
      by_cases hrest : k ∈ linked index size rest
      · have hsize := size_writeWeight index size weights s
        rcases ih hrest (hsize.symm ▸ hk) with ⟨d, hd, hcell, hleft⟩
        exact ⟨d, List.mem_cons_of_mem s hd, hcell, hleft⟩
      · -- No later synapse has the cell, so it is this one that is left.
        rcases List.mem_filterMap.mp h with ⟨d, hd, hcell⟩
        rcases List.mem_cons.mp hd with rfl | hd
        · refine ⟨d, List.mem_cons_self, hcell, ?_⟩
          rw [getElem?_foldl_of_not_linked hrest]
          exact getElem?_writeWeight_of_cell hcell hk
        · exact absurd (List.mem_filterMap.mpr ⟨d, hd, hcell⟩) hrest

/-- A cell of a compiled graph that some synapses have holds the weight of one of them. -/
theorem exists_cell_weights_flatten {ns : List Neuron} {ss : List Synapse} {k : Nat}
    (h : k ∈ linked (.ofIds (ns.map Neuron.id)) ns.length ss) (hk : k < ns.length * ns.length) :
    ∃ s ∈ ss, cellOf? (.ofIds (ns.map Neuron.id)) ns.length s = some k ∧
      Scalar.cell (flatten ns ss : Compiled α).weights k = Scalar.ofFloat s.weight := by
  have hzeros : k < (Scalar.zeros (ns.length * ns.length) : Array α).size := by
    rw [Scalar.size_zeros]
    exact hk
  rcases exists_getElem?_foldl_of_linked h hzeros with ⟨s, hs, hcell, hleft⟩
  refine ⟨s, hs, hcell, ?_⟩
  have hweight : (flatten ns ss : Compiled α).weights[k]? = some (Scalar.ofFloat s.weight) := hleft
  rw [Scalar.cell, hweight, Option.getD_some]

/-!
## The outline of a graph
-/

/-- A compiled graph is one of some neurons and synapses but for their parameters. -/
structure Outlines (ns : List Neuron) (ss : List Synapse) (c : Compiled α) : Prop
    extends Indexes ns c where
  activations : c.activations = ns.map Neuron.activation
  biases : c.biases.size = c.size
  weights : c.weights.size = c.size * c.size
  blank : ∀ k, k ∉ linked c.index c.size ss → Scalar.cell c.weights k = Scalar.zero

theorem outlines_flatten (ns : List Neuron) (ss : List Synapse) :
    Outlines ns ss (flatten ns ss : Compiled α) where
  size := rfl
  ids := rfl
  index := rfl
  activations := rfl
  biases := size_biases_flatten ns ss
  weights := size_weights_flatten ns ss
  blank := by
    intro k hk
    have hcell : (flatten ns ss : Compiled α).weights[k]? =
        (Scalar.zeros (ns.length * ns.length) : Array α)[k]? := getElem?_foldl_of_not_linked hk _
    rw [Scalar.cell, hcell, Scalar.zeros, Array.getElem?_replicate]
    split <;> rfl

theorem Outlines.of_parts {ns ns' : List Neuron} {ss ss' : List Synapse} {c : Compiled α}
    (h : Outlines ns ss c) (hids : ns'.map Neuron.id = ns.map Neuron.id)
    (hactivations : ns'.map Neuron.activation = ns.map Neuron.activation)
    (hlinked : linked c.index c.size ss' = linked c.index c.size ss) : Outlines ns' ss' c where
  toIndexes := h.toIndexes.of_ids hids
  activations := h.activations.trans hactivations.symm
  biases := h.biases
  weights := h.weights
  blank := by
    rw [hlinked]
    exact h.blank

/-!
## Matching
-/

/-- Compiled graphs are the same, where parameters count as the same if they are alike. -/
structure Matches (c d : Compiled α) : Prop where
  size : c.size = d.size
  ids : c.ids = d.ids
  index : c.index = d.index
  activations : c.activations = d.activations
  biases : List.Forall₂ Like c.biases.toList d.biases.toList
  weights : List.Forall₂ Like c.weights.toList d.weights.toList

theorem forall₂_like_refl (xs : List α) : List.Forall₂ Like xs xs :=
  List.forall₂_same.mpr fun x _ => Like.refl x

theorem matches_refl (c : Compiled α) : Matches c c :=
  ⟨rfl, rfl, rfl, rfl, forall₂_like_refl _, forall₂_like_refl _⟩

theorem forall₂_like_iff {xs ys : Array α} (hsize : xs.size = ys.size) :
    List.Forall₂ Like xs.toList ys.toList ↔
      ∀ k < xs.size, Like (Scalar.cell xs k) (Scalar.cell ys k) := by
  rw [List.forall₂_iff_get]
  constructor
  · rintro ⟨-, h⟩ k hk
    have hk' : k < ys.size := hsize ▸ hk
    have hlike := h k hk hk'
    rw [List.get_eq_getElem, List.get_eq_getElem, Array.getElem_toList, Array.getElem_toList]
      at hlike
    rw [Scalar.cell, Scalar.cell, Array.getElem?_eq_getElem hk, Array.getElem?_eq_getElem hk']
    exact hlike
  · intro h
    refine ⟨hsize, fun k hk hk' => ?_⟩
    have hlike := h k hk
    rw [Scalar.cell, Scalar.cell, Array.getElem?_eq_getElem hk,
      Array.getElem?_eq_getElem hk'] at hlike
    rw [List.get_eq_getElem, List.get_eq_getElem, Array.getElem_toList, Array.getElem_toList]
    exact hlike

theorem Matches.weight {c d : Compiled α} {k : Nat} (h : Matches c d) (hk : k < c.weights.size) :
    Like (Scalar.cell c.weights k) (Scalar.cell d.weights k) :=
  (forall₂_like_iff h.weights.length_eq).mp h.weights k hk

/-- With the same outline, the biases and the cells of synapses decide whether graphs match. -/
theorem Outlines.matches_iff {ns : List Neuron} {ss : List Synapse} {c d : Compiled α}
    (hc : Outlines ns ss c) (hd : Outlines ns ss d) :
    Matches c d ↔ (∀ i < c.size, Like (Scalar.cell c.biases i) (Scalar.cell d.biases i)) ∧
      ∀ k ∈ linked c.index c.size ss, k < c.size * c.size →
        Like (Scalar.cell c.weights k) (Scalar.cell d.weights k) := by
  have hsize : c.size = d.size := hc.size.trans hd.size.symm
  have hids : c.ids = d.ids := hc.ids.trans hd.ids.symm
  have hindex : c.index = d.index := by rw [hc.index, hd.index, hids]
  have hbiases := forall₂_like_iff (hc.biases.trans (hsize.trans hd.biases.symm))
  have hweights := forall₂_like_iff
    (hc.weights.trans ((congrArg (fun n => n * n) hsize).trans hd.weights.symm))
  rw [hc.biases] at hbiases
  rw [hc.weights] at hweights
  constructor
  · intro h
    exact ⟨hbiases.mp h.biases, fun k _ => hweights.mp h.weights k⟩
  · rintro ⟨hbias, hweight⟩
    refine ⟨hsize, hids, hindex, hc.activations.trans hd.activations.symm, hbiases.mpr hbias,
      hweights.mpr fun k hk => ?_⟩
    by_cases hlinked : k ∈ linked c.index c.size ss
    · exact hweight k hlinked hk
    · have hblank := hd.blank k (by rw [← hindex, ← hsize]; exact hlinked)
      rw [hc.blank k hlinked, hblank]
      exact Like.refl _

/-!
## What a graph tells of a network
-/

/-- A compiled graph has the parameters of a network, as far as synapses have cells for them. -/
structure Tells (ss : List Synapse) (weights biases : Array α) (c : Compiled α) : Prop where
  bias : ∀ i < c.size, Like (Scalar.cell c.biases i) (Scalar.cell biases i)
  weight : ∀ k ∈ linked c.index c.size ss, k < c.size * c.size →
    Like (Scalar.cell c.weights k) (Scalar.cell weights k)

/-- Where one graph tells the parameters of a network, another one does so if they match. -/
theorem Outlines.matches_iff_tells {ns : List Neuron} {ss : List Synapse}
    {c d : Compiled Float32} {weights biases : Array Float32} (hc : Outlines ns ss c)
    (hd : Outlines ns ss d) (htells : Tells ss weights biases d) :
    Matches c d ↔ Tells ss weights biases c := by
  have hsize : c.size = d.size := hc.size.trans hd.size.symm
  have hindex : c.index = d.index := by rw [hc.index, hd.index, hc.ids, hd.ids]
  rw [hc.matches_iff hd]
  constructor
  · rintro ⟨hbias, hweight⟩
    constructor
    · intro i hi
      exact Single.like_trans (hbias i hi) (htells.bias i (hsize ▸ hi))
    · intro k hk hlt
      exact Single.like_trans (hweight k hk hlt)
        (htells.weight k (by rw [← hindex, ← hsize]; exact hk) (by rw [← hsize]; exact hlt))
  · intro h
    constructor
    · intro i hi
      exact Single.like_trans (h.bias i hi) (Single.like_symm (htells.bias i (hsize ▸ hi)))
    · intro k hk hlt
      exact Single.like_trans (h.weight k hk hlt) (Single.like_symm
        (htells.weight k (by rw [← hindex, ← hsize]; exact hk) (by rw [← hsize]; exact hlt)))

end Compiled
end Plexus
