import Mathlib.Algebra.BigOperators.Fin
import Mathlib.Algebra.Order.Field.Rat
import Mathlib.Data.Fintype.BigOperators
import Plexus.Proofs.Compiled.Simple
import Plexus.Proofs.Numeric.Order

/-!
# Statistics count the graph

A connection is an ordered pair of neurons whose last synapse has a weight that is not zero.  The
statistics of a compiled graph are read off its matrix: rows belong to targets, columns to sources
and the diagonal to connections of a neuron with itself.  What they count are the connections, all
of them or those with the same target or source, and what they say of weights is said of theirs.
-/

namespace Plexus
namespace Compiled

/-!
## Connections
-/

/-- The weight between two neurons of a graph. -/
def weightBetween (α : Type) [Scalar α] (ns : List Neuron) (ss : List Synapse)
    (p : Fin ns.length × Fin ns.length) : α :=
  weightOf (Synapse.lastJoining ss ns[p.1].id ns[p.2].id)

/-- The ordered pairs of neurons that a synapse joins, and not with a weight of zero. -/
def connections (α : Type) [Scalar α] (ns : List Neuron) (ss : List Synapse) :
    Finset (Fin ns.length × Fin ns.length) :=
  Finset.univ.filter fun p => Scalar.nonzero (weightBetween α ns ss p) = true

/-- The connections that end at a neuron. -/
def incoming (α : Type) [Scalar α] (ns : List Neuron) (ss : List Synapse) (t : Fin ns.length) :
    Finset (Fin ns.length × Fin ns.length) :=
  (connections α ns ss).filter fun p => p.2 = t

/-- The connections that start at a neuron. -/
def outgoing (α : Type) [Scalar α] (ns : List Neuron) (ss : List Synapse) (s : Fin ns.length) :
    Finset (Fin ns.length × Fin ns.length) :=
  (connections α ns ss).filter fun p => p.1 = s

/-- Statistics that count the connections of a graph. -/
structure Counts (ns : List Neuron) (ss : List Synapse) (stats : Stats Float32 Rat) : Prop where
  nodes : stats.nodes = ns.length
  edges : stats.edges = (connections Float32 ns ss).card
  selfLoops : stats.selfLoops = ((connections Float32 ns ss).filter fun p => p.1 = p.2).card
  maxInDegree : stats.maxInDegree = Finset.univ.sup fun t => (incoming Float32 ns ss t).card
  maxOutDegree : stats.maxOutDegree = Finset.univ.sup fun s => (outgoing Float32 ns ss s).card
  averageInDegree : 0 < ns.length → stats.averageInDegree * ns.length = stats.edges
  sparsity : 0 < ns.length → (1 - stats.sparsity) * (ns.length : Rat) ^ 2 = stats.edges
  weightMin : (connections Float32 ns ss).Nonempty →
    (∀ p ∈ connections Float32 ns ss, Scalar.isNaN (weightBetween Float32 ns ss p) = false) →
    (∃ p ∈ connections Float32 ns ss, stats.weightMin = weightBetween Float32 ns ss p) ∧
      ∀ p ∈ connections Float32 ns ss, stats.weightMin ≤ weightBetween Float32 ns ss p
  weightMax : (connections Float32 ns ss).Nonempty →
    (∀ p ∈ connections Float32 ns ss, Scalar.isNaN (weightBetween Float32 ns ss p) = false) →
    (∃ p ∈ connections Float32 ns ss, stats.weightMax = weightBetween Float32 ns ss p) ∧
      ∀ p ∈ connections Float32 ns ss, weightBetween Float32 ns ss p ≤ stats.weightMax
  kinds : ∃ counts, stats.kinds = some counts ∧ (counts.map Prod.snd).sum = ns.length

/-!
## Counting by index
-/

theorem countP_range (n : Nat) (p : Nat → Bool) :
    (List.range n).countP p = ∑ i : Fin n, if p i = true then 1 else 0 := by
  induction n with
  | zero => rfl
  | succ n ih =>
      rw [List.range_succ, List.countP_append, ih, Fin.sum_univ_castSucc]
      simp [List.countP_cons]

/-- What is counted by index is a finite set that the indices are a list of. -/
theorem countP_range_eq_card {γ : Type} [DecidableEq γ] {n : Nat} {p : Nat → Bool} {E : Finset γ}
    (f : Fin n → γ) (hf : f.Injective) (hp : ∀ i : Fin n, p i = true ↔ f i ∈ E)
    (hE : ∀ e ∈ E, ∃ i, f i = e) :
    (List.range n).countP p = E.card := by
  have himage : E = (Finset.univ.filter fun i => f i ∈ E).image f := by
    ext e
    rw [Finset.mem_image]
    constructor
    · intro he
      rcases hE e he with ⟨i, rfl⟩
      exact ⟨i, Finset.mem_filter.mpr ⟨Finset.mem_univ i, he⟩, rfl⟩
    · rintro ⟨i, hi, rfl⟩
      exact (Finset.mem_filter.mp hi).2
  rw [himage, Finset.card_image_of_injective _ hf, Finset.card_filter, countP_range]
  exact Finset.sum_congr rfl fun i _ => if_congr (hp i) rfl rfl

/-- What is counted row by row is what is counted of all pairs. -/
theorem countP_flatMap_range (n : Nat) (p : Nat → Nat → Bool) :
    ((List.range n).map fun t => (List.range n).countP fun s => p s t).sum =
      (Finset.univ.filter fun q : Fin n × Fin n => p q.1 q.2 = true).card := by
  have hsum := Finset.sum_range (n := n) fun t => (List.range n).countP fun s => p s t
  rw [Finset.card_filter, Fintype.sum_prod_type_right]
  refine Eq.trans hsum (Finset.sum_congr rfl fun t _ => ?_)
  exact countP_range n fun s => p s t

variable {α : Type} [Scalar α] {ns : List Neuron} {ss : List Synapse}

/-- The cell of two places holds the weight between the neurons there. -/
theorem cell_eq_weightBetween (htext : ∀ n ∈ ns, n.id.IsText) (hnodup : (ns.map Neuron.id).Nodup)
    (s t : Fin ns.length) :
    Scalar.cell (flatten ns ss : Compiled α).weights (t * ns.length + s) =
      weightBetween α ns ss (s, t) := by
  have hids : ∀ u ∈ ns.map Neuron.id, u.IsText := fun _ => text_of_mem_ids htext
  have hbounded := bounded_of_text hids
  rw [List.length_map] at hbounded
  have hid (i : Fin ns.length) : (ns.map Neuron.id)[i.1]? = some ns[i].id := by
    rw [List.getElem?_map, List.getElem?_eq_getElem i.2]
    rfl
  rw [Scalar.cell, getElem?_weights_flatten hbounded s.2 t.2, Option.getD_some,
    lastLeading_eq_lastJoining_of_nodup hids hnodup (hid s) (hid t)]
  rfl

theorem connected_iff (htext : ∀ n ∈ ns, n.id.IsText) (hnodup : (ns.map Neuron.id).Nodup)
    (s t : Fin ns.length) :
    Stats.connected (flatten ns ss : Compiled α) s t = true ↔ (s, t) ∈ connections α ns ss := by
  have hsize : (flatten ns ss : Compiled α).size = ns.length := rfl
  rw [Stats.connected, hsize, cell_eq_weightBetween htext hnodup, connections, Finset.mem_filter]
  exact ⟨fun h => ⟨Finset.mem_univ _, h⟩, And.right⟩

/-- The connections that end at a place are those of its row. -/
theorem inDegree_eq_card (htext : ∀ n ∈ ns, n.id.IsText) (hnodup : (ns.map Neuron.id).Nodup)
    (t : Fin ns.length) :
    Stats.inDegree (flatten ns ss : Compiled α) t = (incoming α ns ss t).card := by
  apply countP_range_eq_card fun s : Fin ns.length => (s, t)
  · intro s s' h
    exact (Prod.mk.inj h).1
  · intro s
    rw [connected_iff htext hnodup, incoming, Finset.mem_filter]
    exact ⟨fun h => ⟨h, rfl⟩, And.left⟩
  · intro p hp
    exact ⟨p.1, Prod.ext rfl (Finset.mem_filter.mp hp).2.symm⟩

/-- The connections that start at a place are those of its column. -/
theorem outDegree_eq_card (htext : ∀ n ∈ ns, n.id.IsText) (hnodup : (ns.map Neuron.id).Nodup)
    (s : Fin ns.length) :
    Stats.outDegree (flatten ns ss : Compiled α) s = (outgoing α ns ss s).card := by
  apply countP_range_eq_card fun t : Fin ns.length => (s, t)
  · intro t t' h
    exact (Prod.mk.inj h).2
  · intro t
    rw [connected_iff htext hnodup, outgoing, Finset.mem_filter]
    exact ⟨fun h => ⟨h, rfl⟩, And.left⟩
  · intro p hp
    exact ⟨p.2, Prod.ext (Finset.mem_filter.mp hp).2.symm rfl⟩

/-- The connections of neurons with themselves are those on the diagonal. -/
theorem loops_eq_card (htext : ∀ n ∈ ns, n.id.IsText) (hnodup : (ns.map Neuron.id).Nodup) :
    ((List.range ns.length).countP fun i => Stats.connected (flatten ns ss : Compiled α) i i) =
      ((connections α ns ss).filter fun p => p.1 = p.2).card := by
  apply countP_range_eq_card fun i : Fin ns.length => (i, i)
  · intro i j h
    exact (Prod.mk.inj h).1
  · intro i
    rw [connected_iff htext hnodup, Finset.mem_filter]
    exact ⟨fun h => ⟨h, rfl⟩, And.left⟩
  · intro p hp
    exact ⟨p.1, Prod.ext rfl (Finset.mem_filter.mp hp).2⟩

/-!
## The weights
-/

/-- The weights that are not zero are those of the connections. -/
theorem mem_weights_iff (htext : ∀ n ∈ ns, n.id.IsText) (hnodup : (ns.map Neuron.id).Nodup)
    (ss : List Synapse) {w : α} :
    w ∈ (flatten ns ss : Compiled α).weights.toList.filter Scalar.nonzero ↔
      ∃ p ∈ connections α ns ss, weightBetween α ns ss p = w := by
  rw [List.mem_filter, Array.mem_toList_iff, Array.mem_iff_getElem?]
  constructor
  · rintro ⟨⟨k, hk⟩, hw⟩
    have hlt : k < ns.length * ns.length := by
      rw [← size_weights_flatten (α := α) ns ss]
      exact (Array.getElem?_eq_some_iff.mp hk).1
    rcases exists_cell hlt with ⟨t, ht, s, hs, rfl⟩
    have hweight : weightBetween α ns ss (⟨s, hs⟩, ⟨t, ht⟩) = w := by
      rw [← cell_eq_weightBetween htext hnodup, Scalar.cell, hk, Option.getD_some]
    refine ⟨_, Finset.mem_filter.mpr ⟨Finset.mem_univ _, ?_⟩, hweight⟩
    rwa [hweight]
  · rintro ⟨⟨s, t⟩, hp, rfl⟩
    refine ⟨⟨t * ns.length + s, ?_⟩, (Finset.mem_filter.mp hp).2⟩
    have hlt : t * ns.length + s < (flatten ns ss : Compiled α).weights.size := by
      rw [size_weights_flatten]
      exact cell_lt t.2 s.2
    rw [Scalar.getElem?_eq_cell hlt, cell_eq_weightBetween htext hnodup]

/-- The matrix, row by row. -/
theorem weights_eq_rows (ns : List Neuron) (ss : List Synapse) :
    (flatten ns ss : Compiled α).weights.toList =
      (List.range ns.length).flatMap fun t => (List.range ns.length).map fun s =>
        Scalar.cell (flatten ns ss : Compiled α).weights (t * ns.length + s) := by
  have hsize := size_weights_flatten (α := α) ns ss
  have hrows : (flatten ns ss : Compiled α).weights =
      ((List.range ns.length).flatMap fun t => (List.range ns.length).map fun s =>
        Scalar.cell (flatten ns ss : Compiled α).weights (t * ns.length + s)).toArray := by
    apply eq_of_rows (Nat.le_of_eq hsize)
    · rw [List.size_toArray, length_flatMap_rows]
    · intro t ht s hs
      have hlt : t * ns.length + s < (flatten ns ss : Compiled α).weights.size := by
        rw [hsize]
        exact cell_lt ht hs
      rw [Scalar.getElem?_eq_cell hlt, List.getElem?_toArray, getElem?_flatMap_rows _ ht hs]
  exact (congrArg Array.toList hrows).trans (List.toList_toArray ..)

/-- There are as many weights that are not zero as there are connections. -/
theorem edges_eq_card (htext : ∀ n ∈ ns, n.id.IsText) (hnodup : (ns.map Neuron.id).Nodup) :
    ((flatten ns ss : Compiled α).weights.toList.filter Scalar.nonzero).length =
      (connections α ns ss).card := by
  rw [← List.countP_eq_length_filter, weights_eq_rows, List.countP_flatMap]
  have hrow : (List.countP Scalar.nonzero ∘ fun t => (List.range ns.length).map fun s =>
      Scalar.cell (flatten ns ss : Compiled α).weights (t * ns.length + s)) =
        fun t => (List.range ns.length).countP fun s =>
          Stats.connected (flatten ns ss : Compiled α) s t := by
    funext t
    rw [Function.comp_apply, List.countP_map]
    rfl
  rw [hrow, countP_flatMap_range]
  congr 1
  ext p
  rw [Finset.mem_filter, connected_iff htext hnodup]
  exact ⟨And.right, fun h => ⟨Finset.mem_univ p, h⟩⟩

end Compiled

/-!
## Degrees, ratios and kinds
-/

namespace Stats

theorem largest_le_iff {xs : List Nat} {k : Nat} : largest xs ≤ k ↔ ∀ x ∈ xs, x ≤ k := by
  have hfold : ∀ m, xs.foldl max m ≤ k ↔ m ≤ k ∧ ∀ x ∈ xs, x ≤ k := by
    induction xs with
    | nil => simp
    | cons x rest ih =>
        intro m
        rw [List.foldl_cons, ih, Nat.max_le, List.forall_mem_cons, and_assoc]
  rw [largest, hfold]
  exact ⟨And.right, fun h => ⟨Nat.zero_le k, h⟩⟩

/-- The largest of some numbers that are given by index. -/
theorem largest_eq_sup {n : Nat} {f : Nat → Nat} {g : Fin n → Nat} (h : ∀ i : Fin n, f i = g i) :
    largest ((List.range n).map f) = Finset.univ.sup g := by
  apply eq_of_forall_ge_iff
  intro k
  rw [largest_le_iff, Finset.sup_le_iff, List.forall_mem_map]
  constructor
  · intro hk i _
    rw [← h i]
    exact hk i (List.mem_range.mpr i.2)
  · intro hk i hi
    rw [h ⟨i, List.mem_range.mp hi⟩]
    exact hk _ (Finset.mem_univ _)

variable {α : Type} [Scalar α] {c : Compiled α} {neurons : Option (List Neuron)}

/-- The average number of connections per neuron is exact. -/
theorem averageInDegree_mul_size (h : 0 < c.size) :
    (ofGraph c neurons : Stats α Rat).averageInDegree * c.size =
      (ofGraph c neurons : Stats α Rat).edges := by
  have hne : (c.size : Rat) ≠ 0 := Nat.cast_ne_zero.mpr (Nat.ne_of_gt h)
  show (if 0 < c.size then _ else _) * _ = _
  rw [if_pos h]
  exact div_mul_cancel₀ _ hne

/-- The share of pairs that are not connected is exact. -/
theorem one_sub_sparsity_mul (h : 0 < c.size) :
    (1 - (ofGraph c neurons : Stats α Rat).sparsity) * (c.size : Rat) ^ 2 =
      (ofGraph c neurons : Stats α Rat).edges := by
  have hne : (c.size : Rat) ^ 2 ≠ 0 := pow_ne_zero 2 (Nat.cast_ne_zero.mpr (Nat.ne_of_gt h))
  have hsparsity : (ofGraph c neurons : Stats α Rat).sparsity =
      1 - ((ofGraph c neurons : Stats α Rat).edges : Rat) / ((c.size * c.size : Nat) : Rat) :=
    if_pos (Nat.mul_pos h h)
  rw [hsparsity, sub_sub_cancel, Nat.cast_mul, ← sq, div_mul_cancel₀ _ hne]

theorem sum_countKind (counts : List (Kind × Nat)) (k : Kind) :
    ((countKind counts k).map Prod.snd).sum = (counts.map Prod.snd).sum + 1 := by
  induction counts with
  | nil => rfl
  | cons c rest ih =>
      rw [countKind]
      split
      · simp only [List.map_cons, List.sum_cons]
        omega
      · simp only [List.map_cons, List.sum_cons, ih]
        omega

/-- Each neuron is counted once, whatever kinds there are. -/
theorem sum_kindCounts (ns : List Neuron) : ((kindCounts ns).map Prod.snd).sum = ns.length := by
  have hfold : ∀ counts : List (Kind × Nat),
      ((ns.foldl (fun counts n => countKind counts n.kind) counts).map Prod.snd).sum =
        (counts.map Prod.snd).sum + ns.length := by
    induction ns with
    | nil => exact fun counts => (Nat.add_zero _).symm
    | cons n rest ih =>
        intro counts
        rw [List.foldl_cons, ih, sum_countKind, List.length_cons]
        omega
  rw [kindCounts, hfold]
  exact Nat.zero_add _

end Stats

namespace Compiled

variable {ns : List Neuron} {ss : List Synapse}

/--
The statistics of a graph whose neurons have different names count the pairs of neurons whose last
synapse has a weight that is not zero in single precision, in all, by target, by source and of
neurons with themselves, and give the least and the greatest of their weights.
-/
theorem stats_count (htext : ∀ n ∈ ns, n.id.IsText) (hnodup : (ns.map Neuron.id).Nodup)
    (hends : ∀ s ∈ ss, s.source.isScalar = true ∧ s.target.isScalar = true) :
    ∃ c : Compiled Float32, compile ns ss = .ok c ∧
      Counts ns ss (Stats.ofGraph c (some ns)) := by
  refine ⟨flatten ns ss, compile_eq_ok htext hends, ?_⟩
  have hweights {w : Float32} := mem_weights_iff (w := w) htext hnodup ss
  have hnonempty (hne : (connections Float32 ns ss).Nonempty) :
      (flatten ns ss : Compiled Float32).weights.toList.filter Scalar.nonzero ≠ [] := by
    rcases hne with ⟨p, hp⟩
    exact List.ne_nil_of_mem (hweights.mpr ⟨p, hp, rfl⟩)
  have hnumbers (hnumber : ∀ p ∈ connections Float32 ns ss,
      Scalar.isNaN (weightBetween Float32 ns ss p) = false) :
      ∀ w ∈ (flatten ns ss : Compiled Float32).weights.toList.filter Scalar.nonzero,
        Scalar.isNaN w = false := by
    intro w hw
    rcases hweights.mp hw with ⟨p, hp, rfl⟩
    exact hnumber p hp
  constructor
  case nodes => rfl
  case edges => exact edges_eq_card htext hnodup
  case selfLoops => exact loops_eq_card htext hnodup
  case maxInDegree => exact Stats.largest_eq_sup (inDegree_eq_card htext hnodup)
  case maxOutDegree => exact Stats.largest_eq_sup (outDegree_eq_card htext hnodup)
  case averageInDegree =>
    exact Stats.averageInDegree_mul_size (c := (flatten ns ss : Compiled Float32))
  case sparsity => exact Stats.one_sub_sparsity_mul (c := (flatten ns ss : Compiled Float32))
  case weightMin =>
    intro hne hnumber
    rcases Single.extreme_lesser (hnonempty hne) (hnumbers hnumber) with ⟨hmem, hleast⟩
    rcases hweights.mp hmem with ⟨p, hp, hmin⟩
    exact ⟨⟨p, hp, hmin.symm⟩, fun q hq => hleast _ (hweights.mpr ⟨q, hq, rfl⟩)⟩
  case weightMax =>
    intro hne hnumber
    rcases Single.extreme_greater (hnonempty hne) (hnumbers hnumber) with ⟨hmem, hgreatest⟩
    rcases hweights.mp hmem with ⟨p, hp, hmax⟩
    exact ⟨⟨p, hp, hmax.symm⟩, fun q hq => hgreatest _ (hweights.mpr ⟨q, hq, rfl⟩)⟩
  case kinds => exact ⟨_, rfl, Stats.sum_kindCounts ns⟩

/-- Two neurons with two synapses between them, a loop of weight zero and one from no neuron. -/
def strands : List Synapse :=
  [{ id := .text "first", source := .text "a", target := .text "b", weight := 1.0 },
   { id := .text "loop", source := .text "b", target := .text "b", weight := 0.0 },
   { id := .text "lost", source := .text "x", target := .text "b", weight := 3.0 },
   { id := .text "second", source := .text "a", target := .text "b", weight := 4.0 }]

/-- The neurons that the strands are between. -/
def strandEnds : List Neuron :=
  [{ id := .text "a", kind := .input, bias := 0.0, activation := .text "linear" },
   { id := .text "b", kind := .output, bias := 0.0, activation := .text "linear" }]

theorem stats_count_strands :
    ∃ c : Compiled Float32, compile strandEnds strands = .ok c ∧
      Counts strandEnds strands (Stats.ofGraph c (some strandEnds)) := by
  have htext : ∀ n ∈ strandEnds, n.id.IsText := by
    intro n hn
    simp only [strandEnds, List.mem_cons, List.not_mem_nil, or_false] at hn
    rcases hn with rfl | rfl
    · exact ⟨"a", rfl⟩
    · exact ⟨"b", rfl⟩
  have hends : ∀ s ∈ strands, s.source.isScalar = true ∧ s.target.isScalar = true := by
    intro s hs
    simp only [strands, List.mem_cons, List.not_mem_nil, or_false] at hs
    rcases hs with rfl | rfl | rfl | rfl
    all_goals exact ⟨rfl, rfl⟩
  have hnodup : (strandEnds.map Neuron.id).Nodup := by simp [strandEnds]
  exact stats_count htext hnodup hends

end Compiled
end Plexus
