import Mathlib.Data.List.Flatten
import Mathlib.Data.List.ProdSigma
import Plexus.Layers.Recipe
import Plexus.Numeric.Single
import Plexus.Proofs.Compiled.Simple
import Plexus.Proofs.Layers.Naming

/-!
# Feed-forward networks

Stacks of layers, with or without connections that skip layers, and random graphs without cycles
only connect a neuron with a later one.  A builder keeps this from step to step, whatever is
drawn, and compiling turns it into a matrix that is zero except on one side of its diagonal.
-/

namespace Plexus

/-!
## Feed-forward graphs
-/

/-- Neurons and synapses of different names, each synapse from a neuron to a later one. -/
structure FeedForward (ns : List Neuron) (ss : List Synapse) : Prop where
  text : ∀ n ∈ ns, n.id.IsText
  neurons : (ns.map Neuron.id).Nodup
  synapses : (ss.map Synapse.id).Nodup
  forward : ∀ s ∈ ss, ∃ i j : Nat, i < j ∧ (ns.map Neuron.id)[i]? = some s.source ∧
    (ns.map Neuron.id)[j]? = some s.target

namespace FeedForward

variable {ns : List Neuron} {ss : List Synapse} (h : FeedForward ns ss)

include h

theorem ends_scalar {s : Synapse} (hs : s ∈ ss) :
    s.source.isScalar = true ∧ s.target.isScalar = true := by
  rcases h.forward s hs with ⟨i, j, -, hsource, htarget⟩
  exact ⟨(Value.idClass_isText.isKey _ (text_of_mem_ids h.text (List.mem_of_getElem? hsource))).1,
    (Value.idClass_isText.isKey _ (text_of_mem_ids h.text (List.mem_of_getElem? htarget))).1⟩

/-- No synapse leads from an index to itself or to a smaller one. -/
theorem lastLeading_eq_none {i j : Nat} (hij : j ≤ i) :
    Compiled.lastLeading (.ofIds (ns.map Neuron.id)) ss i j = none := by
  have hnone : ss.filter (Compiled.leads (.ofIds (ns.map Neuron.id)) i j) = [] := by
    rw [List.filter_eq_nil_iff]
    intro s hs hleads
    rw [Compiled.leads_iff,
      IndexTable.find?_ofIds_iff_getElem? (fun _ => text_of_mem_ids h.text) h.neurons,
      IndexTable.find?_ofIds_iff_getElem? (fun _ => text_of_mem_ids h.text) h.neurons] at hleads
    rcases h.forward s hs with ⟨k, l, hkl, hsource, htarget⟩
    have hk : k = i := index_unique h.neurons hsource hleads.1
    have hl : l = j := index_unique h.neurons htarget hleads.2
    omega
  rw [Compiled.lastLeading, hnone, List.getLast?_nil]

/-- The matrix of a feed-forward graph is zero unless the source comes before the target. -/
theorem compiled {α : Type} [Scalar α] :
    ∃ c : Compiled α, Compiled.compile ns ss = .ok c ∧ c.size = ns.length ∧
      ∀ i j, i < c.size → j < c.size → ¬i < j →
        c.weights[j * c.size + i]? = some Scalar.zero := by
  have hbounded := Compiled.bounded_of_text (fun _ => text_of_mem_ids h.text)
  rw [List.length_map] at hbounded
  refine ⟨Compiled.flatten ns ss, Compiled.compile_eq_ok h.text fun s hs => h.ends_scalar hs, rfl,
    ?_⟩
  intro i j hi hj hij
  show (Compiled.flatten ns ss : Compiled α).weights[j * ns.length + i]? = _
  rw [Compiled.getElem?_weights_flatten hbounded hi hj,
    h.lastLeading_eq_none (Nat.le_of_not_lt hij)]
  rfl

end FeedForward

/-!
## Pairs in order
-/

/-- Two items of a list, one somewhere after the other. -/
theorem pair_sublist_iff {β : Type} {xs : List β} {u v : β} :
    [u, v].Sublist xs ↔ ∃ i j : Nat, i < j ∧ xs[i]? = some u ∧ xs[j]? = some v := by
  constructor
  · intro h
    rcases List.cons_sublist_iff.mp h with ⟨front, back, rfl, hu, hv⟩
    rcases List.mem_iff_getElem?.mp hu with ⟨i, hi⟩
    rcases List.mem_iff_getElem?.mp (List.singleton_sublist.mp hv) with ⟨j, hj⟩
    have hlt : i < front.length := (List.getElem?_eq_some_iff.mp hi).1
    refine ⟨i, front.length + j, by omega, ?_, ?_⟩
    · rw [List.getElem?_append_left hlt, hi]
    · rw [List.getElem?_append_right (by omega), Nat.add_sub_cancel_left, hj]
  · rintro ⟨i, j, hij, hi, hj⟩
    have hu : u ∈ xs.take j :=
      List.mem_of_getElem? ((List.getElem?_take_of_lt hij).trans hi)
    have hv : v ∈ xs.drop j := by
      apply List.mem_of_getElem? (i := 0)
      rw [List.getElem?_drop, Nat.add_zero, hj]
    rw [← List.take_append_drop j xs]
    exact (List.singleton_sublist.mpr hu).append (List.singleton_sublist.mpr hv)

/-- An item and the one some places further on. -/
theorem sublist_of_mem_zip_drop {β : Type} {xs : List β} {stride : Nat} {p : β × β}
    (hstride : 1 ≤ stride) (hp : p ∈ xs.zip (xs.drop stride)) :
    [p.1, p.2].Sublist xs := by
  rcases List.mem_iff_getElem?.mp hp with ⟨i, hi⟩
  rw [List.getElem?_zip_eq_some, List.getElem?_drop] at hi
  exact pair_sublist_iff.mpr ⟨i, stride + i, by omega, hi.1, hi.2⟩

theorem sublist_flatten {layers : List (List String)} {s t : List String} {e : String × String}
    (hlayers : [s, t].Sublist layers) (hsource : e.1 ∈ s) (htarget : e.2 ∈ t) :
    [e.1, e.2].Sublist layers.flatten := by
  have hends : [e.1, e.2].Sublist [s, t].flatten := by
    rw [List.flatten_cons, List.flatten_cons, List.flatten_nil, List.append_nil]
    exact (List.singleton_sublist.mpr hsource).append (List.singleton_sublist.mpr htarget)
  exact hends.trans hlayers.flatten

namespace Builder

theorem mem_pairs {s t : List String} {e : String × String} :
    e ∈ pairs s t ↔ e.1 ∈ s ∧ e.2 ∈ t :=
  List.mem_product

theorem sublist_of_mem_forwardPairs {ids : List String} {e : String × String}
    (h : e ∈ forwardPairs ids) :
    [e.1, e.2].Sublist ids := by
  induction ids with
  | nil => cases h
  | cons id rest ih =>
      rcases List.mem_append.mp h with h | h
      · rcases List.mem_map.mp h with ⟨t, ht, rfl⟩
        exact (List.singleton_sublist.mpr ht).cons_cons id
      · exact (ih h).cons id

/-!
## Laying out
-/

variable {σ : Type} {layers : List (List String)} {b : Builder σ}

/-- A builder with default settings that has some layers and only connections forward. -/
structure Laid (layers : List (List String)) (b : Builder σ) : Prop where
  activation : b.activation = defaultActivation
  scale : b.scale = defaultScale
  arranged : b.layers = layers
  forward : ∀ e ∈ b.edges, [e.1, e.2].Sublist layers.flatten

theorem connect_connect (es fs : List (String × String)) (b : Builder σ) :
    (b.connect es).connect fs = b.connect (es ++ fs) := by
  have hedges : (b.edges.appendList es).appendList fs = b.edges.appendList (es ++ fs) :=
    Array.toList_inj.mp (by simp)
  rw [connect, connect, connect, hedges]

/-- To connect for each item of a list is to connect once. -/
theorem foldl_connect {β : Type} (f : β → List (String × String)) (items : List β)
    (b : Builder σ) :
    items.foldl (fun b item => b.connect (f item)) b = b.connect (items.flatMap f) := by
  induction items generalizing b with
  | nil => simp [connect]
  | cons item rest ih => rw [List.foldl_cons, ih, connect_connect, List.flatMap_cons]

theorem stackFull_eq (b : Builder σ) :
    b.stackFull = b.connect ((neighbours b.layers).flatMap fun p => pairs p.1 p.2) :=
  foldl_connect (fun p : List String × List String => pairs p.1 p.2) (neighbours b.layers) b

theorem laid_addLayers (sizes : List Nat) (source : σ) :
    Laid (names sizes) ((start defaultActivation defaultScale source).addLayers sizes) := by
  rw [addLayers_start]
  refine ⟨rfl, rfl, rfl, ?_⟩
  intro e he
  exact absurd he (Array.not_mem_empty e)

theorem Laid.connect (h : Laid layers b) {es : List (String × String)}
    (hes : ∀ e ∈ es, [e.1, e.2].Sublist layers.flatten) :
    Laid layers (b.connect es) := by
  refine ⟨h.activation, h.scale, h.arranged, ?_⟩
  intro e he
  have hmem : e ∈ b.edges ∨ e ∈ es := by
    rw [← Array.mem_toList_iff, Builder.connect] at he
    simpa using he
  rcases hmem with he | he
  · exact h.forward e he
  · exact hes e he

/-- Connections between neighbouring layers lead forward. -/
theorem forward_of_neighbours {p : List String × List String} {e : String × String}
    (hp : p ∈ neighbours layers) (he : e ∈ pairs p.1 p.2) :
    [e.1, e.2].Sublist layers.flatten :=
  sublist_flatten (sublist_of_mem_zip_drop (Nat.le_refl 1) hp) (mem_pairs.mp he).1
    (mem_pairs.mp he).2

theorem Laid.stackFull (h : Laid layers b) : Laid layers b.stackFull := by
  rw [stackFull_eq, h.arranged]
  apply h.connect
  intro e he
  rcases List.mem_flatMap.mp he with ⟨p, hp, he⟩
  exact forward_of_neighbours hp he

theorem laid_mlp (sizes : List Nat) (source : σ) :
    Laid (names sizes) (mlp sizes (start defaultActivation defaultScale source)) :=
  (laid_addLayers sizes source).stackFull

/-- A stack with skips is connected twice, layer by layer and then neuron by neuron. -/
theorem residual_eq (sizes : List Nat) (stride : Nat) (b : Builder σ) :
    residual sizes stride b =
      let layers := (b.addLayers sizes).layers
      (b.addLayers sizes).connect
        ((neighbours layers).flatMap (fun p => pairs p.1 p.2) ++
          (layers.zip (layers.drop stride)).flatMap fun p => p.1.zip p.2) := by
  have hlayers : (b.addLayers sizes).stackFull.layers = (b.addLayers sizes).layers := by
    rw [stackFull_eq]
    rfl
  rw [residual]
  dsimp only
  rw [hlayers, ← connect_connect, ← stackFull_eq]
  exact foldl_connect (fun p : List String × List String => p.1.zip p.2) _ _

/-- A skip leads forward, however far, as long as it leads to another layer. -/
theorem laid_residual {stride : Nat} (hstride : 1 ≤ stride) (sizes : List Nat) (source : σ) :
    Laid (names sizes) (residual sizes stride (start defaultActivation defaultScale source)) := by
  have hlayers := laid_addLayers sizes source
  rw [residual_eq, hlayers.arranged]
  apply hlayers.connect
  intro e he
  rcases List.mem_append.mp he with he | he
  · rcases List.mem_flatMap.mp he with ⟨p, hp, he⟩
    exact forward_of_neighbours hp he
  · rcases List.mem_flatMap.mp he with ⟨p, hp, he⟩
    have hends := List.of_mem_zip he
    exact sublist_flatten (sublist_of_mem_zip_drop hstride hp) hends.1 hends.2

variable [Draws σ] {probability : Value} {p : Number}

/-- What is drawn decides whether there is a connection, but not where one may lead. -/
theorem Laid.connectMaybe (h : Laid layers b) (hp : probability.toNumber = .ok p)
    {e : String × String} (he : [e.1, e.2].Sublist layers.flatten) :
    ∃ t, (connectMaybe probability e).outcome b = (.ok ⟨⟩, t) ∧ Laid layers t := by
  rw [Builder.connectMaybe, Attempt.outcome_get_bind]
  cases Draws.unit b.source with
  | mk u source =>
      have hdrawn : Laid layers { b with source } := ⟨h.activation, h.scale, h.arranged, h.forward⟩
      dsimp only
      rw [Attempt.outcome_modify_bind, hp, Attempt.outcome_of_ok_bind]
      split
      · refine ⟨_, Attempt.outcome_modify _ _, hdrawn.connect ?_⟩
        intro e' he'
        rw [List.mem_singleton.mp he']
        exact he
      · exact ⟨_, rfl, hdrawn⟩

omit [Draws σ] in
theorem Laid.forM {β : Type} {f : β → Attempt (Builder σ) PUnit} {items : List β}
    (h : Laid layers b)
    (hstep : ∀ item ∈ items, ∀ b, Laid layers b →
      ∃ t, (f item).outcome b = (.ok ⟨⟩, t) ∧ Laid layers t) :
    ∃ t, (items.forM f).outcome b = (.ok ⟨⟩, t) ∧ Laid layers t :=
  Attempt.outcome_forM_of_step (I := fun _ _ => Laid layers)
    (fun _ item _ b hitem hb => hstep item hitem b hb) h

theorem Laid.forM_connectMaybe (h : Laid layers b) (hp : probability.toNumber = .ok p)
    {es : List (String × String)} (hes : ∀ e ∈ es, [e.1, e.2].Sublist layers.flatten) :
    ∃ t, (es.forM (Builder.connectMaybe probability)).outcome b = (.ok ⟨⟩, t) ∧ Laid layers t :=
  h.forM fun e he _ hb => hb.connectMaybe hp (hes e he)

theorem laid_sparseMlp (hp : probability.toNumber = .ok p) (sizes : List Nat) (source : σ) :
    ∃ t, (sparseMlp sizes probability).outcome (start defaultActivation defaultScale source) =
      (.ok ⟨⟩, t) ∧ Laid (names sizes) t := by
  have hstart := laid_addLayers sizes source
  rw [sparseMlp, Attempt.outcome_modify_bind, Attempt.outcome_get_bind, hstart.arranged]
  exact hstart.forM fun _ hpair _ hb =>
    hb.forM_connectMaybe hp fun _ he => forward_of_neighbours hpair he

theorem laid_randomDag (hp : probability.toNumber = .ok p) (size : Nat) (source : σ) :
    ∃ t, (randomDag size probability).outcome (start defaultActivation defaultScale source) =
      (.ok ⟨⟩, t) ∧ Laid (names [size]) t := by
  have hadd : (modifyGet (addLayer size) : Attempt (Builder σ) (List String)).outcome
      (start defaultActivation defaultScale source) =
      (.ok (layerIds 0 size), (start defaultActivation defaultScale source).addLayers [size]) := rfl
  rw [randomDag, Attempt.outcome_bind_of_ok hadd]
  apply (laid_addLayers [size] source).forM_connectMaybe hp
  intro e he
  have hflatten : (names [size]).flatten = layerIds 0 size := List.append_nil _
  rw [hflatten]
  exact sublist_of_mem_forwardPairs he

/-!
## How often two neurons are connected in a stack
-/

/-- A neuron is in one layer only. -/
theorem layer_unique {i j : Nat} {us vs : List String} {u : String}
    (hnodup : layers.flatten.Nodup) (hus : layers[i]? = some us) (hvs : layers[j]? = some vs)
    (hu : u ∈ us) (hv : u ∈ vs) : i = j := by
  have hdisjoint := List.pairwise_iff_getElem.mp (List.nodup_flatten.mp hnodup).2
  rcases List.getElem?_eq_some_iff.mp hus with ⟨hi, rfl⟩
  rcases List.getElem?_eq_some_iff.mp hvs with ⟨hj, rfl⟩
  rcases Nat.lt_trichotomy i j with hlt | heq | hgt
  · exact absurd hv (hdisjoint i j hi hj hlt hu)
  · exact heq
  · exact absurd hu (hdisjoint j i hj hi hgt hv)

/-- What leads from different layers does not repeat. -/
theorem nodup_flatMap_zip {others : List (List String)}
    {f : List String × List String → List (String × String)} (hnodup : layers.flatten.Nodup)
    (hf : ∀ p ∈ layers.zip others, (f p).Nodup) (hsource : ∀ p, ∀ e ∈ f p, e.1 ∈ p.1) :
    ((layers.zip others).flatMap f).Nodup := by
  have hdisjoint := (List.nodup_flatten.mp hnodup).2
  rw [List.nodup_flatMap]
  refine ⟨hf, ?_⟩
  rw [List.pairwise_iff_getElem] at hdisjoint ⊢
  intro i j hi hj hij e he he'
  have hu := hsource _ e he
  have hu' := hsource _ e he'
  rw [List.length_zip] at hi hj
  rw [List.getElem_zip] at hu hu'
  exact hdisjoint i j (by omega) (by omega) hij hu hu'

theorem nodup_stack (hnodup : layers.flatten.Nodup) :
    ((neighbours layers).flatMap fun p => pairs p.1 p.2).Nodup := by
  have hlayers := (List.nodup_flatten.mp hnodup).1
  apply nodup_flatMap_zip hnodup
  · intro p hp
    have hmem := List.of_mem_zip hp
    exact (hlayers p.1 hmem.1).product (hlayers p.2 (List.mem_of_mem_drop hmem.2))
  · intro p e he
    exact (mem_pairs.mp he).1

/-- Two neurons are connected once if their layers are neighbours, and never otherwise. -/
theorem count_stack {i j : Nat} {us vs : List String} {u v : String}
    (hnodup : layers.flatten.Nodup) (hus : layers[i]? = some us) (hvs : layers[j]? = some vs)
    (hu : u ∈ us) (hv : v ∈ vs) :
    ((neighbours layers).flatMap fun p => pairs p.1 p.2).count (u, v) =
      if j = i + 1 then 1 else 0 := by
  rw [(nodup_stack hnodup).count]
  congr 1
  rw [eq_iff_iff, List.mem_flatMap]
  constructor
  · rintro ⟨p, hp, he⟩
    rcases List.mem_iff_getElem?.mp hp with ⟨k, hk⟩
    rw [neighbours, List.getElem?_zip_eq_some, List.getElem?_drop] at hk
    have hik := layer_unique hnodup hus hk.1 hu (mem_pairs.mp he).1
    have hjk := layer_unique hnodup hvs hk.2 hv (mem_pairs.mp he).2
    omega
  · intro hj
    refine ⟨(us, vs), ?_, mem_pairs.mpr ⟨hu, hv⟩⟩
    apply List.mem_of_getElem? (i := i)
    rw [neighbours, List.getElem?_zip_eq_some, List.getElem?_drop, Nat.add_comm, ← hj]
    exact ⟨hus, hvs⟩

/-- How many synapses join two neurons can be read off the connections. -/
theorem countP_joins {ss : List Synapse} {es : List (String × String)}
    (hends : ss.map (fun s => (s.source, s.target)) = es.map fun e => (.text e.1, .text e.2))
    (u v : String) :
    ss.countP (Synapse.joins (.text u) (.text v)) = es.count (u, v) := by
  let meets (e : Value × Value) : Bool := e.1.same (.text u) && e.2.same (.text v)
  have hjoins : Synapse.joins (.text u) (.text v) = meets ∘ fun s => (s.source, s.target) := rfl
  have hequal : (meets ∘ fun e : String × String => (Value.text e.1, Value.text e.2)) =
      (· == (u, v)) := by
    funext e
    simp only [meets, Function.comp_apply, Value.same_text_text]
    rfl
  rw [hjoins, ← List.countP_map, hends, List.countP_map, hequal, List.count]

/-!
## Building
-/

/-- What a builder with only connections forward builds is feed-forward. -/
theorem Laid.build {sizes : List Nat} (h : Laid (names sizes) b) :
    ∃ ns ss t, Builder.build.outcome b = (.ok (ns, ss), t) ∧
      ns.map Neuron.id = (names sizes).flatten.map .text ∧ FeedForward ns ss ∧
      ss.map (fun s => (s.source, s.target)) =
        b.edges.toList.map fun e => (.text e.1, .text e.2) := by
  rcases outcome_build h.activation h.scale with ⟨ns, ss, t, hbuild, hids, hnames, hends⟩
  rw [h.arranged] at hids
  refine ⟨ns, ss, t, hbuild, hids, ⟨?_, ?_, hnames, ?_⟩, hends⟩
  · intro n hn
    have hmem : n.id ∈ (names sizes).flatten.map .text := hids ▸ List.mem_map_of_mem hn
    rcases List.mem_map.mp hmem with ⟨id, -, hid⟩
    exact ⟨id, hid.symm⟩
  · rw [hids]
    exact (nodup_flatten_names sizes).map fun _ _ => Value.text.inj
  · intro s hs
    have hmem : (s.source, s.target) ∈
        b.edges.toList.map fun e => (Value.text e.1, Value.text e.2) :=
      hends ▸ List.mem_map_of_mem (f := fun s : Synapse => (s.source, s.target)) hs
    rcases List.mem_map.mp hmem with ⟨e, he, hends⟩
    have hforward := (h.forward e (Array.mem_toList_iff.mp he)).map Value.text
    rw [← hids, List.map_cons, List.map_cons, List.map_nil, (Prod.mk.inj hends).1,
      (Prod.mk.inj hends).2, pair_sublist_iff] at hforward
    exact hforward

end Builder

namespace Recipe

open Builder

/-- The arguments of a recipe for a feed-forward network, with the sizes of its layers. -/
inductive Reads (fs : List (String × Value)) : Topology → List Nat → Prop where
  | mlp {sizes : List Nat}
      (hsizes : Recipe.sizes (Value.optional fs "layer_sizes" .null) = .ok sizes) :
      Reads fs .mlp sizes
  | sparseMlp {sizes : List Nat} {p : Number}
      (hsizes : Recipe.sizes (Value.optional fs "layer_sizes" .null) = .ok sizes)
      (hp : (Value.optional fs "connection_prob" (.real 0.3)).toNumber = .ok p) :
      Reads fs .sparseMlp sizes
  | residual {sizes : List Nat} {stride : Nat}
      (hsizes : Recipe.sizes (Value.optional fs "layer_sizes" .null) = .ok sizes)
      (hstride : Recipe.stride (Value.optional fs "skip_frequency" (.int 2)) = .ok stride)
      (hpositive : 1 ≤ stride) :
      Reads fs .residual sizes
  | randomDag {size : Nat} {p : Number}
      (hsize : Recipe.size (Value.optional fs "n_nodes" .null) = .ok size)
      (hp : (Value.optional fs "edge_prob" (.real 0.1)).toNumber = .ok p) :
      Reads fs .randomDag [size]

variable {σ : Type} [Draws σ] {fs : List (String × Value)} {t : Topology} {sizes : List Nat}

theorem outcome_layOut_mlp
    (hsizes : Recipe.sizes (Value.optional fs "layer_sizes" .null) = .ok sizes)
    (b : Builder σ) :
    (layOut .mlp fs).outcome b = (.ok ⟨⟩, Builder.mlp sizes b) := by
  rw [layOut]
  dsimp only
  rw [hsizes, Attempt.outcome_of_ok_bind, Attempt.outcome_modify]

theorem layOut_laid (h : Reads fs t sizes) (source : σ) :
    ∃ b, (layOut t fs).outcome (start defaultActivation defaultScale source) = (.ok ⟨⟩, b) ∧
      Laid (names sizes) b := by
  cases h with
  | mlp hsizes => exact ⟨_, outcome_layOut_mlp hsizes _, laid_mlp sizes source⟩
  | sparseMlp hsizes hp =>
      rw [layOut]
      dsimp only
      rw [hsizes, Attempt.outcome_of_ok_bind]
      exact laid_sparseMlp hp sizes source
  | residual hsizes hstride hpositive =>
      rw [layOut]
      dsimp only
      rw [hsizes, Attempt.outcome_of_ok_bind, hstride, Attempt.outcome_of_ok_bind]
      exact ⟨_, Attempt.outcome_modify _ _, laid_residual hpositive sizes source⟩
  | randomDag hsize hp =>
      rw [layOut]
      dsimp only
      rw [hsize, Attempt.outcome_of_ok_bind]
      exact laid_randomDag hp _ source

/--
Stacks of layers, sparse or not and with skips or without, and random graphs without cycles are
feed-forward, whatever is drawn.  In a full stack two neurons are joined once if the second is in
the layer after that of the first, and never otherwise.
-/
theorem layOut_build_feedForward {α : Type} [Scalar α] (h : Reads fs t sizes) (source : σ) :
    ∃ ns ss b, (layOut t fs >>= fun _ => Builder.build).outcome
        (start defaultActivation defaultScale source) = (.ok (ns, ss), b) ∧
      ns.map Neuron.id = (names sizes).flatten.map .text ∧
      FeedForward ns ss ∧
      (∃ c : Compiled α, Compiled.compile ns ss = .ok c ∧ c.size = ns.length ∧
        ∀ i j, i < c.size → j < c.size → ¬i < j →
          c.weights[j * c.size + i]? = some Scalar.zero) ∧
      (t = .mlp → ∀ i j us vs u v, (names sizes)[i]? = some us → (names sizes)[j]? = some vs →
        u ∈ us → v ∈ vs →
        ss.countP (Synapse.joins (.text u) (.text v)) = if j = i + 1 then 1 else 0) := by
  rcases layOut_laid h source with ⟨b, hlayOut, hlaid⟩
  rcases hlaid.build with ⟨ns, ss, b', hbuild, hids, hforward, hends⟩
  refine ⟨ns, ss, b', ?_, hids, hforward, hforward.compiled, ?_⟩
  · rw [Attempt.outcome_bind_of_ok hlayOut, hbuild]
  · rintro rfl i j us vs u v hus hvs hu hv
    cases h with
    | mlp hsizes =>
        rw [outcome_layOut_mlp hsizes, Prod.mk.injEq] at hlayOut
        have hedges : b.edges.toList = (neighbours (names sizes)).flatMap fun p =>
            pairs p.1 p.2 := by
          rw [← hlayOut.2, Builder.mlp, stackFull_eq, addLayers_start, connect]
          simp [start]
        rw [countP_joins hends, hedges, count_stack (nodup_flatten_names sizes) hus hvs hu hv]

/-- The arguments for a stack of three layers. -/
def threeLayers : List (String × Value) := [("layer_sizes", .list [.int 2, .int 3, .int 1])]

theorem layOut_build_feedForward_stack :
    ∃ ns ss b, (layOut .mlp threeLayers >>= fun _ => Builder.build).outcome
        (start defaultActivation defaultScale (Generator.ofEntropy [7])) = (.ok (ns, ss), b) ∧
      ns.map Neuron.id = (names [2, 3, 1]).flatten.map .text ∧
      FeedForward ns ss ∧
      (∃ c : Compiled Float32, Compiled.compile ns ss = .ok c ∧ c.size = ns.length ∧
        ∀ i j, i < c.size → j < c.size → ¬i < j →
          c.weights[j * c.size + i]? = some Scalar.zero) ∧
      (Topology.mlp = .mlp → ∀ i j us vs u v, (names [2, 3, 1])[i]? = some us →
        (names [2, 3, 1])[j]? = some vs → u ∈ us → v ∈ vs →
        ss.countP (Synapse.joins (.text u) (.text v)) = if j = i + 1 then 1 else 0) :=
  layOut_build_feedForward (.mlp rfl) (Generator.ofEntropy [7])

end Recipe
end Plexus
