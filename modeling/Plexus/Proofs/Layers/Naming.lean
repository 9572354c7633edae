import Mathlib.Data.List.Induction
import Mathlib.Data.List.Nodup
import Plexus.Layers.Topology
import Plexus.Proofs.Attempt

/-!
# Names in a built network

A builder names a neuron by its layer and its place in the layer, and a synapse by the place of
its connection.  A number can be read off its digits, and no digit is an underscore, so different
places have different names.
-/

namespace Plexus

namespace Builder

/-!
## Names of neurons
-/

theorem toList_neuronName (layer i : Nat) :
    s!"L{layer}_{i}".toList = 'L' :: (Nat.toDigits 10 layer ++ '_' :: Nat.toDigits 10 i) := by
  simp only [Nat.toString_eq_repr, String.toList_append, Nat.toList_repr, List.append_assoc]
  rfl

theorem underscore_not_mem_toDigits (n : Nat) : '_' ∉ Nat.toDigits 10 n := by
  intro hmem
  have hdigit := Nat.isDigit_of_mem_toDigits (by decide) (by decide) hmem
  cases hdigit

theorem toDigits_injective {m n : Nat} (h : Nat.toDigits 10 m = Nat.toDigits 10 n) : m = n := by
  have hnumber := congrArg (Nat.ofDigitChars 10 · 0) h
  rwa [Nat.ofDigitChars_toDigits (by decide) (by decide),
    Nat.ofDigitChars_toDigits (by decide) (by decide)] at hnumber

/-- A neuron's name says which layer it is in and where. -/
theorem neuronName_injective {layer other i j : Nat} (h : s!"L{layer}_{i}" = s!"L{other}_{j}") :
    layer = other ∧ i = j := by
  have hlist := congrArg String.toList h
  rw [toList_neuronName, toList_neuronName, List.cons.injEq,
    List.append_cons_inj_of_notMem (underscore_not_mem_toDigits layer)
      (underscore_not_mem_toDigits i)] at hlist
  rcases hlist with ⟨-, hlayer, -, hi⟩
  exact ⟨toDigits_injective hlayer, toDigits_injective hi⟩

theorem mem_layerIds {layer size : Nat} {id : String} :
    id ∈ layerIds layer size ↔ ∃ i < size, s!"L{layer}_{i}" = id := by
  simp only [layerIds, List.mem_map, List.mem_range]

theorem nodup_layerIds (layer size : Nat) : (layerIds layer size).Nodup :=
  List.nodup_range.map fun _ _ h => (neuronName_injective h).2

/-- The names of the neurons of layers of some sizes. -/
def names (sizes : List Nat) : List (List String) := sizes.mapIdx layerIds

theorem length_names (sizes : List Nat) : (names sizes).length = sizes.length :=
  List.length_mapIdx

theorem names_concat (sizes : List Nat) (size : Nat) :
    names (sizes ++ [size]) = names sizes ++ [layerIds sizes.length size] :=
  List.mapIdx_concat

/-- Different layers have no name in common. -/
theorem disjoint_names (sizes : List Nat) : (names sizes).Pairwise List.Disjoint := by
  rw [List.pairwise_iff_getElem]
  intro i j hi hj hij id hmem hmem'
  simp only [names, List.getElem_mapIdx] at hmem hmem'
  rcases mem_layerIds.mp hmem with ⟨k, -, rfl⟩
  rcases mem_layerIds.mp hmem' with ⟨l, -, hname⟩
  have heq : j = i := (neuronName_injective hname).1
  omega

theorem nodup_of_mem_names {sizes : List Nat} {ids : List String} (h : ids ∈ names sizes) :
    ids.Nodup := by
  rcases List.mem_iff_getElem.mp h with ⟨i, hi, rfl⟩
  simp only [names, List.getElem_mapIdx]
  exact nodup_layerIds _ _

theorem nodup_flatten_names (sizes : List Nat) : (names sizes).flatten.Nodup :=
  List.nodup_flatten.mpr ⟨fun _ h => nodup_of_mem_names h, disjoint_names sizes⟩

variable {σ : Type} [Draws σ]

omit [Draws σ] in
/-- Layers that are added to an empty builder have the names of their places. -/
theorem addLayers_start (activation : Value) (scale : Except Fault Float) (source : σ)
    (sizes : List Nat) :
    (start activation scale source).addLayers sizes =
      { start activation scale source with layers := names sizes } := by
  unfold addLayers
  induction sizes using List.reverseRecOn with
  | nil => rfl
  | append_singleton sizes size ih =>
      rw [List.foldl_append, ih, List.foldl_cons, List.foldl_nil, addLayer, names_concat,
        length_names]

/-!
## Names of synapses
-/

/-- A letter with a number after it says which number it is. -/
theorem numbered_injective {stem : String} {i j : Nat} (h : s!"{stem}{i}" = s!"{stem}{j}") :
    i = j := by
  have hlist := congrArg String.toList h
  simp only [Nat.toString_eq_repr, String.toList_append, Nat.toList_repr] at hlist
  exact toDigits_injective (List.append_cancel_left hlist)

theorem synapseName_injective {i j : Nat} (h : s!"s{i}" = s!"s{j}") : i = j :=
  numbered_injective h

theorem ids_drawWeights (scale : Float) (i : Nat) (edges : List (String × String)) (source : σ) :
    (drawWeights scale i edges source).1.map Synapse.id =
      (List.range' i edges.length).map fun k => .text s!"s{k}" := by
  induction edges generalizing i source with
  | nil => rfl
  | cons e rest ih =>
      rw [drawWeights, List.map_cons, ih, List.length_cons, List.range'_succ, List.map_cons]

theorem nodup_ids_drawWeights (scale : Float) (i : Nat) (edges : List (String × String))
    (source : σ) :
    ((drawWeights scale i edges source).1.map Synapse.id).Nodup := by
  rw [ids_drawWeights]
  apply List.Nodup.map _ List.nodup_range'
  intro k l h
  exact synapseName_injective (Value.text.inj h)

/-- The synapses join what the connections join, in the same order. -/
theorem ends_drawWeights (scale : Float) (i : Nat) (edges : List (String × String)) (source : σ) :
    (drawWeights scale i edges source).1.map (fun s => (s.source, s.target)) =
      edges.map fun e => (.text e.1, .text e.2) := by
  induction edges generalizing i source with
  | nil => rfl
  | cons e rest ih => rw [drawWeights, List.map_cons, List.map_cons, ih]

/-!
## What is built
-/

omit [Draws σ] in
/-- A builder whose activation is known names its neurons layer by layer. -/
theorem neurons_eq_ok {b : Builder σ} {a : Activation} (hactivation : b.activation = .text a.tag) :
    ∃ ns, b.neurons = .ok ns ∧ ns.map Neuron.id = b.layers.flatten.map .text := by
  let neuron (place : String × Nat) : Neuron :=
    { id := .text place.1, kind := kindOf b.layers.length place.2, bias := 0.0,
      activation := b.activation }
  have hmake : ∀ place : String × Nat,
      Neuron.make (.text place.1) (.text (kindOf b.layers.length place.2).tag) (.real 0.0)
        b.activation = .ok (neuron place) := by
    intro place
    rw [Neuron.make, Kind.ofValue_tag, hactivation]
    dsimp only [bind, Except.bind, Value.toFloat]
    rw [Activation.ofTag?_tag]
    simp only [neuron, hactivation]
    rfl
  refine ⟨_, Attempt.mapM_eq_ok fun place _ => hmake place, ?_⟩
  rw [List.map_map, List.map_flatMap, List.flatten_eq_flatMap, List.map_flatMap,
    ← List.zipIdx_map_fst 0 b.layers, List.flatMap_map, List.zipIdx_map_fst]
  apply List.flatMap_congr
  intro layer _
  rw [List.map_map]
  rfl

/-- A builder with default settings builds a network of its layers and connections. -/
theorem outcome_build {b : Builder σ} (hactivation : b.activation = defaultActivation)
    (hscale : b.scale = defaultScale) :
    ∃ ns ss t, build.outcome b = (.ok (ns, ss), t) ∧
      ns.map Neuron.id = b.layers.flatten.map .text ∧ (ss.map Synapse.id).Nodup ∧
      ss.map (fun s => (s.source, s.target)) =
        b.edges.toList.map fun e => (.text e.1, .text e.2) := by
  rcases neurons_eq_ok (a := .tanh) hactivation with ⟨ns, hns, hids⟩
  have hcheck : checkScale 0.5 = .ok () := by rfl
  let drawn := drawWeights 0.5 0 b.edges.toList b.source
  refine ⟨ns, drawn.1, { b with source := drawn.2 }, ?_, hids, nodup_ids_drawWeights ..,
    ends_drawWeights ..⟩
  rw [build, Attempt.outcome_get_bind, hns, Attempt.outcome_of_ok_bind, hscale, defaultScale,
    Attempt.outcome_of_ok_bind, hcheck, Attempt.outcome_of_ok_bind, Attempt.outcome_set_bind]
  rfl

end Builder
end Plexus
