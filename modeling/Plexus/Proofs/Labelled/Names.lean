import Plexus.Labelled.Convert
import Plexus.Proofs.Layers.Naming
import Plexus.Proofs.Store.Filling
import Plexus.Proofs.Store.Keys

/-!
# Names of the edges of a labelled graph

On the way from a labelled graph to a network, an edge keeps the name that it is labelled with, and
an edge without one is named by its number.  The numbers are all different, but an edge may be
labelled with the name that a number gives to another one, and in no other way do two synapses
come to have the same name.  A store refuses the second of them.
-/

namespace Plexus

open Attempt
open Value (IsText idClass_isText)

/-!
## Giving names
-/

/-- The name of the item with a number, among items of which some have names of their own. -/
def nameAt (i : Nat) (given : Option String) : String := given.getD s!"e{i}"

/-- Whether an item without a name is named by its number as another item is. -/
def ClashesAt (given : List (Option String)) (i : Nat) : Prop :=
  given[i]? = some none ∧ some s!"e{i}" ∈ given

instance (given : List (Option String)) (i : Nat) : Decidable (ClashesAt given i) :=
  inferInstanceAs (Decidable (_ ∧ _))

theorem edgeName_injective {i j : Nat} (h : s!"e{i}" = s!"e{j}") : i = j :=
  Builder.numbered_injective h

/-- Two items have the same name only if the number of the one is the name of the other. -/
theorem clashesAt_of_nameAt_eq {given : List (Option String)} {i j : Nat} {a b : Option String}
    (hgiven : (given.filterMap id).Nodup) (ha : given[i]? = some a) (hb : given[j]? = some b)
    (hij : i < j) (hname : nameAt i a = nameAt j b) :
    ∃ k, ClashesAt given k ∧ nameAt i a = s!"e{k}" := by
  cases a with
  | none =>
      cases b with
      | none =>
          have heq : i = j := edgeName_injective hname
          omega
      | some v =>
          refine ⟨i, ⟨ha, ?_⟩, rfl⟩
          have hv : s!"e{i}" = v := hname
          rw [hv]
          exact List.mem_of_getElem? hb
  | some u =>
      cases b with
      | none =>
          refine ⟨j, ⟨hb, ?_⟩, hname⟩
          have hu : u = s!"e{j}" := hname
          rw [← hu]
          exact List.mem_of_getElem? ha
      | some v =>
          have huv : u = v := hname
          have happart := List.pairwise_filterMap.mp hgiven
          rw [List.pairwise_iff_getElem] at happart
          rcases List.getElem?_eq_some_iff.mp ha with ⟨hi, hu⟩
          rcases List.getElem?_eq_some_iff.mp hb with ⟨hj, hv⟩
          exact absurd huv (happart i j hi hj hij u hu v hv)

/-- Names are all different exactly if no number is the name of another item. -/
theorem nodup_mapIdx_nameAt_iff {given : List (Option String)}
    (hgiven : (given.filterMap id).Nodup) :
    (given.mapIdx nameAt).Nodup ↔ ∀ i, ¬ClashesAt given i := by
  constructor
  · rintro hnodup i ⟨hnone, hmem⟩
    rcases List.mem_iff_getElem?.mp hmem with ⟨j, hj⟩
    have hsame : (given.mapIdx nameAt)[i]? = (given.mapIdx nameAt)[j]? := by
      rw [List.getElem?_mapIdx, List.getElem?_mapIdx, hnone, hj]
      rfl
    have hlt : i < (given.mapIdx nameAt).length := by
      rw [List.length_mapIdx]
      exact (List.getElem?_eq_some_iff.mp hnone).1
    have heq : i = j := (List.getElem?_inj hlt hnodup).mp hsame
    rw [heq, hj] at hnone
    cases hnone
  · intro hclash
    rw [List.Nodup, List.pairwise_iff_getElem]
    intro i j hi hj hij hname
    rw [List.length_mapIdx] at hi hj
    rw [List.getElem_mapIdx, List.getElem_mapIdx] at hname
    rcases clashesAt_of_nameAt_eq hgiven (List.getElem?_eq_getElem hi)
      (List.getElem?_eq_getElem hj) hij hname with ⟨k, hk, -⟩
    exact hclash k hk

/-!
## The names that a graph gives
-/

namespace LabelledGraph

variable {kind activation : Value} {g : LabelledGraph} {ns : List Neuron} {ss : List Synapse}

/-- The name that an edge is labelled with, as a text. -/
def nameLabel (e : LabelledEdge) : Option String := (Value.field? e.labels "id").map Value.display

/-- The names that the edges of a graph are labelled with. -/
def edgeNames (g : LabelledGraph) : List (Option String) := g.edges.map nameLabel

theorem toNeuron_eq_ok {node : LabelledNode} {n : Neuron}
    (h : toNeuron kind activation node = .ok n) :
    n.Named ∧ n.id = .text node.name.display := by
  have hid := Neuron.id_of_make h
  refine ⟨⟨⟨_, hid⟩, ?_⟩, hid⟩
  rcases bind_eq_ok h with ⟨_, -, h⟩
  rcases bind_eq_ok h with ⟨_, -, h⟩
  split at h
  · next tag htag =>
    split at h
    · next hsome =>
      cases h
      rcases Option.isSome_iff_exists.mp hsome with ⟨f, hf⟩
      rw [htag]
      refine ⟨f, ?_⟩
      rw [Activation.ofValue, hf]
    · cases h
  · cases h

theorem toSynapse_eq_ok {p : LabelledEdge × Nat} {s : Synapse} (h : toSynapse p = .ok s) :
    s.Named ∧ s.id = .text (nameAt p.2 (nameLabel p.1)) := by
  rcases bind_eq_ok h with ⟨w, -, h⟩
  cases h
  refine ⟨⟨⟨_, rfl⟩, ⟨_, rfl⟩, ⟨_, rfl⟩⟩, ?_⟩
  show Value.text (Value.optional p.1.labels "id" _).display = _
  rw [Value.optional, nameLabel, nameAt]
  cases Value.field? p.1.labels "id" <;> rfl

/-- A network is named by its graph: the neurons by the nodes, the synapses by the edges. -/
theorem ids_of_toNetwork (h : toNetwork kind activation g = .ok (ns, ss)) :
    (∀ n ∈ ns, n.Named) ∧ (∀ s ∈ ss, s.Named) ∧
      ns.map Neuron.id = (g.nodes.map fun node => node.name.display).map .text ∧
      ss.map Synapse.id = (g.edgeNames.mapIdx nameAt).map .text := by
  rw [toNetwork] at h
  rcases guard_eq_ok h with ⟨-, h⟩
  rcases bind_eq_ok h with ⟨ns', hns, h⟩
  rcases bind_eq_ok h with ⟨ss', hss, h⟩
  cases h
  refine ⟨fun n hn => ?_, fun s hs => ?_, ?_, ?_⟩
  · rcases exists_of_mem_mapM hns hn with ⟨node, -, hn⟩
    exact (toNeuron_eq_ok hn).1
  · rcases exists_of_mem_mapM hss hs with ⟨p, -, hs⟩
    exact (toSynapse_eq_ok hs).1
  · rw [map_of_mapM_eq_ok (fun _ _ hn => (toNeuron_eq_ok hn).2) hns, List.map_map]
    rfl
  · rw [map_of_mapM_eq_ok (fun _ _ hs => (toSynapse_eq_ok hs).2) hss, edgeNames,
      List.mapIdx_eq_zipIdx_map, List.zipIdx_map, List.map_map, List.map_map]
    rfl

theorem exists_clashesAt_of_repeats {given : List (Option String)} {i j : Nat} {v : Value}
    (hgiven : (given.filterMap id).Nodup) (hij : i < j)
    (hi : ((given.mapIdx nameAt).map Value.text)[i]? = some v)
    (hj : ((given.mapIdx nameAt).map Value.text)[j]? = some v) :
    ∃ k, ClashesAt given k ∧ v = .text s!"e{k}" := by
  rw [List.getElem?_map, List.getElem?_mapIdx, Option.map_map, Option.map_eq_some_iff] at hi hj
  rcases hi with ⟨a, ha, rfl⟩
  rcases hj with ⟨b, hb, hname⟩
  rcases clashesAt_of_nameAt_eq hgiven ha hb hij (Value.text.inj hname).symm with ⟨k, hk, hname⟩
  exact ⟨k, hk, congrArg Value.text hname⟩

/-- A synapse whose name an earlier one has is named by a number, or the earlier one is. -/
theorem exists_clashesAt_of_mem {given : List (Option String)} {before after : List Synapse}
    {s : Synapse} (hgiven : (given.filterMap id).Nodup)
    (hids : (before ++ s :: after).map Synapse.id = (given.mapIdx nameAt).map .text)
    (hmem : s.id ∈ before.map Synapse.id) :
    ∃ k, ClashesAt given k ∧ s.id = .text s!"e{k}" := by
  rcases List.mem_iff_getElem?.mp hmem with ⟨i, hi⟩
  have hlt : i < before.length := by
    rw [← List.length_map Synapse.id]
    exact (List.getElem?_eq_some_iff.mp hi).1
  have hfirst : ((before ++ s :: after).map Synapse.id)[i]? = some s.id := by
    rw [List.map_append, List.getElem?_append_left (by rwa [List.length_map])]
    exact hi
  have hsecond : ((before ++ s :: after).map Synapse.id)[before.length]? = some s.id := by simp
  rw [hids] at hfirst hsecond
  exact exists_clashesAt_of_repeats hgiven hlt hfirst hsecond

/--
If nodes are named differently, and so are the edges that have names, then all neurons can be
stored.  The synapses can be stored exactly if their identifiers are different, which they are
unless an edge without a name has a number that gives it the name of another edge.  Storing them
in memory then stops at a synapse with such a name.
-/
theorem storable_toNetwork_iff (hnodes : (g.nodes.map fun node => node.name.display).Nodup)
    (hedges : (g.edgeNames.filterMap id).Nodup)
    (h : toNetwork kind activation g = .ok (ns, ss)) :
    Storable ns ∧
    ((ss.map Synapse.id).Nodup ↔ ∀ i, ¬ClashesAt g.edgeNames i) ∧
    (Storable ss ↔ ∀ i, ¬ClashesAt g.edgeNames i) ∧
    ∀ i, ClashesAt g.edgeNames i → ∃ j before, ClashesAt g.edgeNames j ∧
      (ss.forM Store.create).outcome (.keyed .empty) =
        (.error (.entityExists (.text s!"e{j}")), .keyed (.ofList before)) := by
  rcases ids_of_toNetwork h with ⟨hns, hss, hnodeIds, hedgeIds⟩
  have hstored : Storable ss ↔ (ss.map Synapse.id).Nodup :=
    storable_iff hss fun s hs => Synapse.encode_avoids_integrity (hss s hs)
  have hapart : (ss.map Synapse.id).Nodup ↔ ∀ i, ¬ClashesAt g.edgeNames i := by
    rw [hedgeIds, List.nodup_map_iff fun _ _ => Value.text.inj]
    exact nodup_mapIdx_nameAt_iff hedges
  refine ⟨?_, hapart, hstored.trans hapart, fun i hi => ?_⟩
  · refine (storable_iff hns fun n hn => Neuron.encode_avoids_integrity (hns n hn)).mpr ?_
    show (ns.map Neuron.id).Nodup
    rw [hnodeIds, List.nodup_map_iff fun _ _ => Value.text.inj]
    exact hnodes
  · rcases Store.forM_create_keyed_cases fun s hs => (hss s hs).id with
      ⟨hnodup, -⟩ | ⟨before, s, after, rfl, hmem, hrun⟩
    · exact absurd hi (hapart.mp hnodup i)
    · -- The first synapse that is refused has the name of one that is stored.
      rcases exists_clashesAt_of_mem hedges hedgeIds hmem with ⟨j, hj, hname⟩
      refine ⟨j, before, hj, ?_⟩
      rw [hrun]
      show (Except.error (Fault.entityExists s.id), _) = _
      rw [hname]

/-- Three edges in a circle, of which one has a name. -/
def circle : LabelledGraph where
  directed := true
  parallel := false
  nodes :=
    [⟨.text "a", [], [(.text "b", [(.int 0, [])])]⟩,
     ⟨.text "b", [], [(.text "c", [(.int 0, [("id", .text "e1")])])]⟩,
     ⟨.text "c", [], [(.text "a", [(.int 0, [])])]⟩]

/-- Two edges, of which the second has the name that the first is given. -/
def relay : LabelledGraph where
  directed := true
  parallel := false
  nodes :=
    [⟨.text "a", [], [(.text "b", [(.int 0, [])])]⟩,
     ⟨.text "b", [], [(.text "c", [(.int 0, [("id", .text "e0")])])]⟩,
     ⟨.text "c", [], []⟩]

theorem storable_toNetwork_iff_circle :
    ∃ ns ss, toNetwork (.text "hidden") (.text "tanh") circle = .ok (ns, ss) ∧
      (circle.nodes.map fun node => node.name.display).Nodup ∧
      (circle.edgeNames.filterMap id).Nodup ∧ Storable ns ∧ (ss.map Synapse.id).Nodup ∧
      Storable ss := by
  have hnodes : (circle.nodes.map fun node => node.name.display).Nodup := by decide
  have hedges : (circle.edgeNames.filterMap id).Nodup := by decide
  have hclash : ∀ i, ¬ClashesAt circle.edgeNames i := by
    have hbelow : ∀ i < 3, ¬ClashesAt circle.edgeNames i := by decide
    exact fun i hi => hbelow i (List.getElem?_eq_some_iff.mp hi.1).1 hi
  have hnetwork : ∃ p, toNetwork (.text "hidden") (.text "tanh") circle = .ok p := ⟨_, rfl⟩
  rcases hnetwork with ⟨⟨ns, ss⟩, h⟩
  rcases storable_toNetwork_iff hnodes hedges h with ⟨hns, hapart, hss, -⟩
  exact ⟨ns, ss, h, hnodes, hedges, hns, hapart.mpr hclash, hss.mpr hclash⟩

/-- An edge is given the name that another edge is labelled with. -/
theorem synapse_ids_repeat_relay :
    (do let g ← (empty true false).addEdge (.text "a") (.text "b") []
        g.addEdge (.text "b") (.text "c") [("id", .text "e0")]) = .ok relay ∧
    ¬∀ (g : LabelledGraph) (ns : List Neuron) (ss : List Synapse), g.directed = true →
      (g.nodes.map fun node => node.name.display).Nodup → (g.edgeNames.filterMap id).Nodup →
        toNetwork (.text "hidden") (.text "tanh") g = .ok (ns, ss) →
          (ss.map Synapse.id).Nodup := by
  constructor
  · rfl
  · intro h
    have hedges : (relay.edgeNames.filterMap id).Nodup := by decide
    have hclash : ClashesAt relay.edgeNames 0 := by decide
    have hnetwork : ∃ p, toNetwork (.text "hidden") (.text "tanh") relay = .ok p := ⟨_, rfl⟩
    rcases hnetwork with ⟨⟨ns, ss⟩, hnetwork⟩
    have hnodup := h relay ns ss rfl (by decide) hedges hnetwork
    rw [(ids_of_toNetwork hnetwork).2.2.2, List.nodup_map_iff fun _ _ => Value.text.inj,
      nodup_mapIdx_nameAt_iff hedges] at hnodup
    exact hnodup 0 hclash

end LabelledGraph
end Plexus
