import Plexus.Numeric.Single
import Plexus.Proofs.Attempt
import Plexus.Proofs.Compiled.Flatten

/-!
# What a compiled graph says of its graph

Neurons may share an identifier here, synapses may lead from or to no neuron, and several may
lead from one neuron to another.  An identifier has the index of its last position, a cell the
weight of the last synapse that leads there, and what leads nowhere might as well be left out.
-/

namespace Plexus
namespace Compiled

variable {α : Type} [Scalar α]

/-- Whether both ends of a synapse are neurons. -/
def resolved (index : IndexTable) (s : Synapse) : Bool :=
  (index.find? s.source).isSome && (index.find? s.target).isSome

/-- What a compiled graph has to be for some neurons and synapses. -/
structure Snapshot (ns : List Neuron) (ss : List Synapse) (c : Compiled α) : Prop where
  size : c.size = ns.length
  ids : c.ids = ns.map Neuron.id
  activations : c.activations = ns.map Neuron.activation
  biases : c.biases.toList = ns.map fun n => Scalar.ofFloat n.bias
  /-- An identifier has the index of its last position, and no index if it has no position. -/
  found : ∀ id i, c.index.find? id = some i ↔ IndexTable.LastAt c.ids id i
  known : ∀ id ∈ c.ids, ∃ i, c.index.find? id = some i ∧ c.ids[i]? = some id
  distinct : c.ids.Nodup → ∀ i id, c.ids[i]? = some id → c.index.find? id = some i
  cells : c.weights.size = c.size * c.size
  weights : ∀ s t, s < c.size → t < c.size →
    c.weights[t * c.size + s]? = some (weightOf (lastLeading c.index ss s t))
  unresolved : compile ns (ss.filter (resolved c.index)) = .ok c

theorem bounded_of_text {ids : List Value} (htext : ∀ u ∈ ids, u.IsText) :
    Bounded (.ofIds ids) ids.length := by
  intro id i h
  have hlast := (IndexTable.find?_ofIds_iff_lastAt htext).mp h
  exact (List.getElem?_eq_some_iff.mp hlast.1).1

/-- A synapse with an end that is no neuron is not written. -/
theorem writeWeight_of_not_resolved {index : IndexTable} {s : Synapse}
    (h : resolved index s = false) (size : Nat) (weights : Array α) :
    writeWeight index size weights s = weights := by
  have hcell : cellOf? index size s = none := by
    unfold cellOf?
    split
    · next hsource htarget => simp [resolved, hsource, htarget] at h
    · rfl
  rw [writeWeight, hcell]

theorem foldl_writeWeight_filter (index : IndexTable) (size : Nat) (ss : List Synapse)
    (weights : Array α) :
    (ss.filter (resolved index)).foldl (writeWeight index size) weights =
      ss.foldl (writeWeight index size) weights := by
  induction ss generalizing weights with
  | nil => rfl
  | cons s rest ih =>
      cases hs : resolved index s with
      | true => rw [List.filter_cons_of_pos hs, List.foldl_cons, List.foldl_cons, ih]
      | false =>
          rw [List.filter_cons_of_neg (by simp [hs]), List.foldl_cons,
            writeWeight_of_not_resolved hs, ih]

/-- Synapses with an end that is no neuron have no effect. -/
theorem flatten_filter_resolved (ns : List Neuron) (ss : List Synapse) :
    flatten ns (ss.filter (resolved (flatten ns ss : Compiled α).index)) =
      (flatten ns ss : Compiled α) := by
  have hweights := foldl_writeWeight_filter (α := α) (.ofIds (ns.map Neuron.id)) ns.length ss
    (Scalar.zeros (ns.length * ns.length))
  exact congrArg (fun weights => { (flatten ns ss : Compiled α) with weights }) hweights

theorem compile_eq_ok {ns : List Neuron} {ss : List Synapse} (hns : ∀ n ∈ ns, n.id.IsText)
    (hss : ∀ s ∈ ss, s.source.isScalar = true ∧ s.target.isScalar = true) :
    compile ns ss = .ok (flatten ns ss : Compiled α) := by
  have hname : nameable ns ss = true := by
    rw [nameable, Bool.and_eq_true, List.all_eq_true, List.all_eq_true]
    constructor
    · intro n hn
      rcases hns n hn with ⟨text, htext⟩
      rw [htext]
      rfl
    · intro s hs
      rw [(hss s hs).1, (hss s hs).2]
      rfl
  rw [compile, if_pos hname]

theorem snapshot_flatten {ns : List Neuron} {ss : List Synapse} (hns : ∀ n ∈ ns, n.id.IsText)
    (hss : ∀ s ∈ ss, s.source.isScalar = true ∧ s.target.isScalar = true) :
    Snapshot ns ss (flatten ns ss : Compiled α) := by
  have htext : ∀ id ∈ ns.map Neuron.id, id.IsText := by
    intro id hid
    rcases List.mem_map.mp hid with ⟨n, hn, rfl⟩
    exact hns n hn
  have hfound : ∀ id i, (IndexTable.ofIds (ns.map Neuron.id)).find? id = some i ↔
      IndexTable.LastAt (ns.map Neuron.id) id i :=
    fun id i => IndexTable.find?_ofIds_iff_lastAt htext
  have hbounded := bounded_of_text htext
  rw [List.length_map] at hbounded
  constructor
  case size | ids | activations => rfl
  case biases => exact List.toList_toArray
  case found => exact hfound
  case known =>
    intro id hid
    rcases IndexTable.exists_lastAt hid with ⟨i, hi⟩
    exact ⟨i, (hfound id i).mpr hi, hi.1⟩
  case distinct =>
    intro hnodup i id hi
    exact (hfound id i).mpr (IndexTable.lastAt_of_nodup hnodup hi)
  case cells => exact size_weights_flatten ns ss
  case weights =>
    intro s t hs ht
    exact getElem?_weights_flatten hbounded hs ht
  case unresolved =>
    rw [compile_eq_ok hns fun s hs => hss s (List.mem_filter.mp hs).1]
    exact congrArg Except.ok (flatten_filter_resolved ns ss)

/-- The weight that is read by the names of two neurons is the one in their cell. -/
theorem Snapshot.weight_eq {ns : List Neuron} {ss : List Synapse} {c : Compiled α}
    (h : Snapshot ns ss c) {u v : Value} {s t : Nat} (hu : u.isScalar = true)
    (hv : v.isScalar = true) (hs : IndexTable.LastAt c.ids u s)
    (ht : IndexTable.LastAt c.ids v t) :
    c.weight u v = .ok (weightOf (lastLeading c.index ss s t)) := by
  have hlength : c.ids.length = c.size := by rw [h.ids, List.length_map, h.size]
  have hsLt : s < c.size := hlength ▸ (List.getElem?_eq_some_iff.mp hs.1).1
  have htLt : t < c.size := hlength ▸ (List.getElem?_eq_some_iff.mp ht.1).1
  have hsource : c.indexOf u = .ok s := by
    rw [indexOf, hu, (h.found u s).mpr hs]
    rfl
  have htarget : c.indexOf v = .ok t := by
    rw [indexOf, hv, (h.found v t).mpr ht]
    rfl
  rw [weight, hsource, htarget]
  show Except.ok _ = Except.ok _
  rw [Scalar.cell, h.weights s t hsLt htLt, Option.getD_some]

/-!
## One compiler for several graphs
-/

/--
Compiling gives a snapshot of any graph whose identifiers are texts, and gives the same one
again with a compiler that has compiled another graph before.
-/
theorem flatten_gives_snapshot {ns : List Neuron} {ss : List Synapse}
    (hns : ∀ n ∈ ns, n.id.IsText)
    (hss : ∀ s ∈ ss, s.source.isScalar = true ∧ s.target.isScalar = true) (k : Compiler) :
    ∃ c : Compiled α, Snapshot ns ss c ∧ (Compiler.flatten ns ss).outcome k = (.ok c, k) ∧
      ∀ ns₀ ss₀, ((Compiler.flatten ns ss : Attempt Compiler (Compiled α)).outcome
        ((Compiler.flatten ns₀ ss₀ : Attempt Compiler (Compiled α)).after k)).1 = .ok c := by
  refine ⟨flatten ns ss, snapshot_flatten hns hss, ?_, ?_⟩
  · rw [Compiler.flatten, Attempt.outcome_of, compile_eq_ok hns hss]
  · intro ns₀ ss₀
    rw [Compiler.flatten, Attempt.outcome_of, compile_eq_ok hns hss]

/-- Two neurons of the same name, with a third one between them. -/
def echo : List Neuron :=
  [{ id := .text "a", kind := .hidden, bias := 0.5, activation := .text "tanh" },
   { id := .text "b", kind := .output, bias := 0.0, activation := .text "linear" },
   { id := .text "a", kind := .input, bias := 1.0, activation := .text "relu" }]

/-- Two parallel synapses, one from a neuron to itself, and one from no neuron. -/
def echoSynapses : List Synapse :=
  [{ id := .text "first", source := .text "a", target := .text "b", weight := 1.0 },
   { id := .text "loop", source := .text "a", target := .text "a", weight := 2.0 },
   { id := .text "lost", source := .text "x", target := .text "b", weight := 3.0 },
   { id := .text "second", source := .text "a", target := .text "b", weight := 4.0 }]

theorem flatten_gives_snapshot_echo :
    ∃ c : Compiled Float32, Snapshot echo echoSynapses c ∧
      (Compiler.flatten echo echoSynapses).outcome ⟨⟩ = (.ok c, ⟨⟩) ∧
      ∀ ns₀ ss₀, ((Compiler.flatten echo echoSynapses : Attempt Compiler (Compiled Float32)).outcome
        ((Compiler.flatten ns₀ ss₀ : Attempt Compiler (Compiled Float32)).after ⟨⟩)).1 = .ok c := by
  have hns : ∀ n ∈ echo, n.id.IsText := by
    intro n hn
    simp only [echo, List.mem_cons, List.not_mem_nil, or_false] at hn
    rcases hn with rfl | rfl | rfl
    · exact ⟨"a", rfl⟩
    · exact ⟨"b", rfl⟩
    · exact ⟨"a", rfl⟩
  have hss : ∀ s ∈ echoSynapses, s.source.isScalar = true ∧ s.target.isScalar = true := by
    intro s hs
    simp only [echoSynapses, List.mem_cons, List.not_mem_nil, or_false] at hs
    rcases hs with rfl | rfl | rfl | rfl
    all_goals exact ⟨rfl, rfl⟩
  exact flatten_gives_snapshot hns hss ⟨⟩

end Compiled
end Plexus
