import Plexus.Proofs.Layers.FeedForward

/-!
# Networks without parallel synapses

The connections of a topology are made in passes.  What a pass connects is so many layers apart,
and two passes repeat each other only if they lead equally far.  A skip to the next layer is the
one pass that does, so all other networks have a cell of their own for each synapse when they are
compiled.  What is drawn decides which connections a pass leaves out, never what it repeats.
-/

namespace Plexus

namespace Builder

/-!
## How far connections lead
-/

variable {layers : List (List String)} {d : Nat} {e : String × String}

/-- Whether a connection leads from a neuron of a layer to one that is so many layers on. -/
def Spans (layers : List (List String)) (d : Nat) (e : String × String) : Prop :=
  ∃ i us vs, layers[i]? = some us ∧ layers[i + d]? = some vs ∧ e.1 ∈ us ∧ e.2 ∈ vs

/-- A connection leads as far as it does. -/
theorem Spans.unique {d' : Nat} (hnodup : layers.flatten.Nodup) (h : Spans layers d e)
    (h' : Spans layers d' e) : d = d' := by
  rcases h with ⟨i, us, vs, hus, hvs, hu, hv⟩
  rcases h' with ⟨j, us', vs', hus', hvs', hu', hv'⟩
  have hsource : i = j := layer_unique hnodup hus hus' hu hu'
  have htarget : i + d = j + d' := layer_unique hnodup hvs hvs' hv hv'
  omega

theorem Spans.mem_flatten (h : Spans layers d e) :
    e.1 ∈ layers.flatten ∧ e.2 ∈ layers.flatten := by
  rcases h with ⟨i, us, vs, hus, hvs, hu, hv⟩
  exact ⟨List.mem_flatten.mpr ⟨us, List.mem_of_getElem? hus, hu⟩,
    List.mem_flatten.mpr ⟨vs, List.mem_of_getElem? hvs, hv⟩⟩

theorem spans_of_mem_zip_drop {p : List String × List String} (hp : p ∈ layers.zip (layers.drop d))
    (hsource : e.1 ∈ p.1) (htarget : e.2 ∈ p.2) : Spans layers d e := by
  rcases List.mem_iff_getElem?.mp hp with ⟨i, hi⟩
  rw [List.getElem?_zip_eq_some, List.getElem?_drop, Nat.add_comm] at hi
  exact ⟨i, p.1, p.2, hi.1, hi.2, hsource, htarget⟩

/-!
## Passes
-/

/-- The connections from every layer to the next one. -/
def stackPass (layers : List (List String)) : List (String × String) :=
  (neighbours layers).flatMap fun p => pairs p.1 p.2

/-- The connections, neuron by neuron, from every layer to the one so many layers on. -/
def skipPass (d : Nat) (layers : List (List String)) : List (String × String) :=
  (layers.zip (layers.drop d)).flatMap fun p => p.1.zip p.2

/-- The connections within each hidden layer. -/
def lateralPass (layers : List (List String)) : List (String × String) :=
  (layers.drop 1).dropLast.flatMap fun layer => pairs layer layer

theorem spans_of_mem_stackPass (h : e ∈ stackPass layers) : Spans layers 1 e := by
  rcases List.mem_flatMap.mp h with ⟨p, hp, he⟩
  exact spans_of_mem_zip_drop hp (mem_pairs.mp he).1 (mem_pairs.mp he).2

theorem spans_of_mem_skipPass (h : e ∈ skipPass d layers) : Spans layers d e := by
  rcases List.mem_flatMap.mp h with ⟨p, hp, he⟩
  have hends := List.of_mem_zip he
  exact spans_of_mem_zip_drop hp hends.1 hends.2

theorem spans_of_mem_lateralPass (h : e ∈ lateralPass layers) : Spans layers 0 e := by
  rcases List.mem_flatMap.mp h with ⟨layer, hlayer, he⟩
  have hmem := List.mem_of_mem_drop (List.dropLast_subset _ hlayer)
  rcases List.mem_iff_getElem?.mp hmem with ⟨i, hi⟩
  exact ⟨i, layer, layer, hi, hi, (mem_pairs.mp he).1, (mem_pairs.mp he).2⟩

theorem nodup_skipPass (hnodup : layers.flatten.Nodup) : (skipPass d layers).Nodup := by
  have hlayers := (List.nodup_flatten.mp hnodup).1
  apply nodup_flatMap_zip hnodup
  · intro p hp
    have hsource : (p.1.zip p.2).Pairwise fun e f => e.1 ≠ f.1 := by
      have hnodup := hlayers p.1 (List.of_mem_zip hp).1
      rw [List.pairwise_iff_getElem]
      intro i j hi hj hij
      rw [List.length_zip] at hi hj
      rw [List.getElem_zip, List.getElem_zip]
      exact List.pairwise_iff_getElem.mp hnodup i j (by omega) (by omega) hij
    exact hsource.imp fun hne heq => hne (congrArg Prod.fst heq)
  · intro p e he
    exact (List.of_mem_zip he).1

theorem nodup_lateralPass (hnodup : layers.flatten.Nodup) : (lateralPass layers).Nodup := by
  rcases List.nodup_flatten.mp hnodup with ⟨hlayers, hdisjoint⟩
  have hhidden : (layers.drop 1).dropLast.Sublist layers :=
    (List.dropLast_sublist _).trans (List.drop_sublist 1 layers)
  rw [lateralPass, List.nodup_flatMap]
  constructor
  · intro layer hlayer
    have hlayer := hlayers layer (hhidden.subset hlayer)
    exact hlayer.product hlayer
  · apply (hdisjoint.sublist hhidden).imp
    intro us vs happart e he he'
    exact happart (mem_pairs.mp he).1 (mem_pairs.mp he').1

theorem nodup_forwardPairs {ids : List String} (h : ids.Nodup) : (forwardPairs ids).Nodup := by
  induction ids with
  | nil => exact List.nodup_nil
  | cons id rest ih =>
      rcases List.nodup_cons.mp h with ⟨hid, hrest⟩
      rw [forwardPairs, List.nodup_append']
      refine ⟨hrest.map fun _ _ heq => (Prod.mk.inj heq).2, ih hrest, ?_⟩
      intro e he he'
      rcases List.mem_map.mp he with ⟨t, -, rfl⟩
      have hends := (sublist_of_mem_forwardPairs he').subset
      exact hid (hends List.mem_cons_self)

/-- Passes that lead differently far repeat nothing. -/
theorem nodup_passes {es fs : List (String × String)} {d' : Nat} (hnodup : layers.flatten.Nodup)
    (hes : es.Nodup) (hfs : fs.Nodup) (hne : d ≠ d') (hd : ∀ e ∈ es, Spans layers d e)
    (hd' : ∀ e ∈ fs, Spans layers d' e) : (es ++ fs).Nodup := by
  rw [List.nodup_append']
  refine ⟨hes, hfs, ?_⟩
  intro e he he'
  exact hne ((hd e he).unique hnodup (hd' e he'))

/-- Layers of which two neighbours both have neurons. -/
def Adjoining (sizes : List Nat) : Prop :=
  ∃ i m n, sizes[i]? = some (m + 1) ∧ sizes[i + 1]? = some (n + 1)

theorem skipPass_one_ne_nil_iff (sizes : List Nat) :
    skipPass 1 (names sizes) ≠ [] ↔ Adjoining sizes := by
  have hname {i : Nat} {ids : List String} :
      (names sizes)[i]? = some ids ↔ ∃ n, sizes[i]? = some n ∧ layerIds i n = ids := by
    rw [names, List.getElem?_mapIdx, Option.map_eq_some_iff]
  constructor
  · intro h
    rcases List.exists_mem_of_ne_nil _ h with ⟨e, he⟩
    rcases spans_of_mem_skipPass he with ⟨i, us, vs, hus, hvs, hu, hv⟩
    rcases hname.mp hus with ⟨m, hm, rfl⟩
    rcases hname.mp hvs with ⟨n, hn, rfl⟩
    rcases mem_layerIds.mp hu with ⟨k, hk, -⟩
    rcases mem_layerIds.mp hv with ⟨l, hl, -⟩
    refine ⟨i, m - 1, n - 1, ?_, ?_⟩
    · rw [hm]
      congr 1
      omega
    · rw [hn]
      congr 1
      omega
  · rintro ⟨i, m, n, hm, hn⟩ hnil
    have hp : (layerIds i (m + 1), layerIds (i + 1) (n + 1)) ∈
        (names sizes).zip ((names sizes).drop 1) := by
      apply List.mem_of_getElem? (i := i)
      rw [List.getElem?_zip_eq_some, List.getElem?_drop, Nat.add_comm 1 i]
      exact ⟨hname.mpr ⟨m + 1, hm, rfl⟩, hname.mpr ⟨n + 1, hn, rfl⟩⟩
    have hempty := List.flatMap_eq_nil_iff.mp hnil _ hp
    rw [List.zip_eq_nil_iff] at hempty
    have hlength {j k : Nat} : layerIds j (k + 1) ≠ [] := by
      apply List.ne_nil_of_length_pos
      rw [layerIds, List.length_map, List.length_range]
      omega
    rcases hempty with hempty | hempty
    · exact hlength hempty
    · exact hlength hempty

/-- A stack with skips repeats a connection exactly if the skips lead to the next layer. -/
theorem nodup_stackPass_skipPass_iff (sizes : List Nat) (stride : Nat) :
    (stackPass (names sizes) ++ skipPass stride (names sizes)).Nodup ↔
      ¬(stride = 1 ∧ Adjoining sizes) := by
  have hnodup := nodup_flatten_names sizes
  by_cases hstride : stride = 1
  · subst hstride
    have hrepeat : skipPass 1 (names sizes) ⊆ stackPass (names sizes) := by
      intro e he
      rcases List.mem_flatMap.mp he with ⟨p, hp, he⟩
      exact List.mem_flatMap.mpr ⟨p, hp, mem_pairs.mpr (List.of_mem_zip he)⟩
    rw [← skipPass_one_ne_nil_iff]
    constructor
    · rintro h ⟨-, hne⟩
      rcases List.exists_mem_of_ne_nil _ hne with ⟨e, he⟩
      exact (List.nodup_append'.mp h).2.2 (hrepeat he) he
    · intro h
      have hnil : skipPass 1 (names sizes) = [] := by
        by_contra hne
        exact h ⟨rfl, hne⟩
      rw [hnil, List.append_nil]
      exact nodup_stack hnodup
  · constructor
    · rintro - ⟨h, -⟩
      exact hstride h
    · intro _
      exact nodup_passes hnodup (nodup_stack hnodup) (nodup_skipPass hnodup) (Ne.symm hstride)
        (fun _ => spans_of_mem_stackPass) fun _ => spans_of_mem_skipPass

/-!
## What is drawn
-/

variable {σ : Type} {b b' b'' : Builder σ} {es fs : List (String × String)}

/-- A builder that has got some connections more, in order, but not necessarily all of them. -/
structure Gains (es : List (String × String)) (b b' : Builder σ) : Prop where
  activation : b'.activation = b.activation
  scale : b'.scale = b.scale
  layers : b'.layers = b.layers
  edges : ∃ gained, b'.edges.toList = b.edges.toList ++ gained ∧ gained.Sublist es

theorem gains_nothing (es : List (String × String)) (b : Builder σ) : Gains es b b :=
  ⟨rfl, rfl, rfl, [], (List.append_nil _).symm, List.nil_sublist es⟩

theorem toList_edges_connect (es : List (String × String)) (b : Builder σ) :
    (b.connect es).edges.toList = b.edges.toList ++ es := by
  rw [connect]
  simp

theorem gains_connect (es : List (String × String)) (b : Builder σ) : Gains es b (b.connect es) :=
  ⟨rfl, rfl, rfl, es, toList_edges_connect es b, List.Sublist.refl es⟩

theorem Gains.append (h : Gains es b b') (h' : Gains fs b' b'') : Gains (es ++ fs) b b'' := by
  rcases h.edges with ⟨gained, hgained, hsub⟩
  rcases h'.edges with ⟨gained', hgained', hsub'⟩
  refine ⟨h'.activation.trans h.activation, h'.scale.trans h.scale, h'.layers.trans h.layers,
    gained ++ gained', ?_, hsub.append hsub'⟩
  rw [hgained', hgained, List.append_assoc]

theorem Gains.forM {β : Type} {f : β → Attempt (Builder σ) PUnit}
    {g : β → List (String × String)} {items : List β}
    (hstep : ∀ item ∈ items, ∀ b, ∃ t, (f item).outcome b = (.ok ⟨⟩, t) ∧ Gains (g item) b t)
    (b : Builder σ) :
    ∃ t, (items.forM f).outcome b = (.ok ⟨⟩, t) ∧ Gains (items.flatMap g) b t := by
  apply Attempt.outcome_forM_of_step (I := fun done _ t => Gains (done.flatMap g) b t)
  · intro done item _ s hitem hs
    rcases hstep item hitem s with ⟨t, hrun, ht⟩
    refine ⟨t, hrun, ?_⟩
    rw [List.flatMap_append, List.flatMap_singleton]
    exact hs.append ht
  · exact gains_nothing _ b

variable [Draws σ] {probability : Value} {p : Number}

theorem gains_connectMaybe (hp : probability.toNumber = .ok p) (e : String × String)
    (b : Builder σ) :
    ∃ t, (connectMaybe probability e).outcome b = (.ok ⟨⟩, t) ∧ Gains [e] b t := by
  rw [connectMaybe, Attempt.outcome_get_bind]
  cases Draws.unit b.source with
  | mk u source =>
      have hdrawn : Gains [] b { b with source } :=
        ⟨rfl, rfl, rfl, [], (List.append_nil _).symm, List.Sublist.refl []⟩
      dsimp only
      rw [Attempt.outcome_modify_bind, hp, Attempt.outcome_of_ok_bind]
      split
      · exact ⟨_, Attempt.outcome_modify _ _, hdrawn.append (gains_connect [e] _)⟩
      · exact ⟨_, rfl, hdrawn.append (gains_nothing [e] _)⟩

theorem gains_forM_connectMaybe (hp : probability.toNumber = .ok p) (es : List (String × String))
    (b : Builder σ) :
    ∃ t, (es.forM (connectMaybe probability)).outcome b = (.ok ⟨⟩, t) ∧ Gains es b t := by
  nth_rewrite 2 [← List.flatMap_singleton' es]
  exact Gains.forM (fun e _ => gains_connectMaybe hp e) b

theorem gains_connectRecurrent (hp : probability.toNumber = .ok p) (layer : List String)
    (selfLoops : Bool) (b : Builder σ) :
    ∃ t, (connectRecurrent layer probability selfLoops).outcome b = (.ok ⟨⟩, t) ∧
      Gains (pairs layer layer) b t := by
  rw [connectRecurrent]
  nth_rewrite 2 [← List.flatMap_singleton' (pairs layer layer)]
  apply Gains.forM
  intro e _ b
  split
  · split
    · exact ⟨_, Attempt.outcome_modify _ _, gains_connect [e] b⟩
    · exact ⟨b, rfl, gains_nothing [e] b⟩
  · exact gains_connectMaybe hp e b

/-!
## Connections of the topologies
-/

/-- A builder with default settings that connects neurons of its layers. -/
structure Arranged (sizes : List Nat) (b : Builder σ) : Prop where
  activation : b.activation = defaultActivation
  scale : b.scale = defaultScale
  layers : b.layers = names sizes
  ends : ∀ e ∈ b.edges.toList, e.1 ∈ (names sizes).flatten ∧ e.2 ∈ (names sizes).flatten

variable {sizes : List Nat} {source : σ}

omit [Draws σ] in
theorem layers_addLayers_start (sizes : List Nat) (source : σ) :
    ((start defaultActivation defaultScale source).addLayers sizes).layers = names sizes := by
  rw [addLayers_start]

omit [Draws σ] in
/-- What an empty builder with layers gains are all connections that it has. -/
theorem Gains.arranged
    (h : Gains es ((start defaultActivation defaultScale source).addLayers sizes) b)
    (hends : ∀ e ∈ es, e.1 ∈ (names sizes).flatten ∧ e.2 ∈ (names sizes).flatten) :
    Arranged sizes b ∧ b.edges.toList.Sublist es := by
  rw [addLayers_start] at h
  rcases h with ⟨hactivation, hscale, hlayers, gained, hedges, hsub⟩
  have hall : b.edges.toList = gained := hedges
  have hsub : b.edges.toList.Sublist es := hall ▸ hsub
  exact ⟨⟨hactivation, hscale, hlayers, fun e he => hends e (hsub.subset he)⟩, hsub⟩

omit [Draws σ] in
/-- If nothing repeats, then it does not matter which connections are left out. -/
theorem Gains.arranged_nodup
    (h : Gains es ((start defaultActivation defaultScale source).addLayers sizes) b)
    (hends : ∀ e ∈ es, e.1 ∈ (names sizes).flatten ∧ e.2 ∈ (names sizes).flatten)
    (hes : es.Nodup) :
    Arranged sizes b ∧ b.edges.toList.Nodup := by
  rcases h.arranged hends with ⟨harranged, hsub⟩
  exact ⟨harranged, hes.sublist hsub⟩

theorem ends_stackPass (h : e ∈ stackPass layers) : e.1 ∈ layers.flatten ∧ e.2 ∈ layers.flatten :=
  (spans_of_mem_stackPass h).mem_flatten

omit [Draws σ] in
theorem gains_mlp (sizes : List Nat) (source : σ) :
    Gains (stackPass (names sizes))
      ((start defaultActivation defaultScale source).addLayers sizes)
      (mlp sizes (start defaultActivation defaultScale source)) := by
  rw [mlp, stackFull_eq, layers_addLayers_start]
  exact gains_connect _ _

omit [Draws σ] in
theorem arranged_mlp (sizes : List Nat) (source : σ) :
    Arranged sizes (mlp sizes (start defaultActivation defaultScale source)) ∧
      (mlp sizes (start defaultActivation defaultScale source)).edges.toList.Nodup :=
  (gains_mlp sizes source).arranged_nodup (fun _ => ends_stackPass)
    (nodup_stack (nodup_flatten_names sizes))

theorem arranged_sparseMlp (hp : probability.toNumber = .ok p) (sizes : List Nat) (source : σ) :
    ∃ t, (sparseMlp sizes probability).outcome (start defaultActivation defaultScale source) =
      (.ok ⟨⟩, t) ∧ Arranged sizes t ∧ t.edges.toList.Nodup := by
  rw [sparseMlp, Attempt.outcome_modify_bind, Attempt.outcome_get_bind, layers_addLayers_start]
  rcases Gains.forM
    (fun p (_ : p ∈ neighbours (names sizes)) => gains_forM_connectMaybe hp (pairs p.1 p.2))
    ((start defaultActivation defaultScale source).addLayers sizes) with ⟨t, hrun, hgains⟩
  exact ⟨t, hrun, hgains.arranged_nodup (fun _ => ends_stackPass)
    (nodup_stack (nodup_flatten_names sizes))⟩

omit [Draws σ] in
theorem arranged_residual (sizes : List Nat) (stride : Nat) (source : σ) :
    Arranged sizes (residual sizes stride (start defaultActivation defaultScale source)) ∧
      ((residual sizes stride (start defaultActivation defaultScale source)).edges.toList.Nodup ↔
        ¬(stride = 1 ∧ Adjoining sizes)) := by
  have hedges : (residual sizes stride
      (start defaultActivation defaultScale source)).edges.toList =
        stackPass (names sizes) ++ skipPass stride (names sizes) := by
    rw [residual_eq, addLayers_start]
    exact toList_edges_connect _ _
  constructor
  · have hgains := gains_connect (stackPass (names sizes) ++ skipPass stride (names sizes))
      ((start defaultActivation defaultScale source).addLayers sizes)
    rw [residual_eq, layers_addLayers_start]
    refine (hgains.arranged fun e he => ?_).1
    rcases List.mem_append.mp he with he | he
    · exact ends_stackPass he
    · exact (spans_of_mem_skipPass he).mem_flatten
  · rw [hedges]
    exact nodup_stackPass_skipPass_iff sizes stride

theorem arranged_recurrent (hp : probability.toNumber = .ok p) (sizes : List Nat)
    (selfLoops : Bool) (source : σ) :
    ∃ t, (recurrent sizes probability selfLoops).outcome
        (start defaultActivation defaultScale source) = (.ok ⟨⟩, t) ∧
      Arranged sizes t ∧ t.edges.toList.Nodup := by
  have hnodup := nodup_flatten_names sizes
  have hmlp := gains_mlp sizes source
  have hlayers := (arranged_mlp sizes source).1.layers
  rw [recurrent, Attempt.outcome_modify_bind, Attempt.outcome_get_bind, hlayers]
  rcases Gains.forM (fun layer (_ : layer ∈ ((names sizes).drop 1).dropLast) =>
    gains_connectRecurrent hp layer selfLoops)
    (mlp sizes (start defaultActivation defaultScale source)) with ⟨t, hrun, hlateral⟩
  refine ⟨t, hrun, (hmlp.append hlateral).arranged_nodup (fun e he => ?_) ?_⟩
  · rcases List.mem_append.mp he with he | he
    · exact ends_stackPass he
    · exact (spans_of_mem_lateralPass he).mem_flatten
  · exact nodup_passes hnodup (nodup_stack hnodup) (nodup_lateralPass hnodup) Nat.one_ne_zero
      (fun _ => spans_of_mem_stackPass) fun _ => spans_of_mem_lateralPass

theorem arranged_randomDag (hp : probability.toNumber = .ok p) (size : Nat) (source : σ) :
    ∃ t, (randomDag size probability).outcome (start defaultActivation defaultScale source) =
      (.ok ⟨⟩, t) ∧ Arranged [size] t ∧ t.edges.toList.Nodup := by
  have hadd : (modifyGet (addLayer size) : Attempt (Builder σ) (List String)).outcome
      (start defaultActivation defaultScale source) =
      (.ok (layerIds 0 size), (start defaultActivation defaultScale source).addLayers [size]) := rfl
  have hflatten : (names [size]).flatten = layerIds 0 size := List.append_nil _
  rw [randomDag, Attempt.outcome_bind_of_ok hadd]
  rcases gains_forM_connectMaybe hp (forwardPairs (layerIds 0 size))
    ((start defaultActivation defaultScale source).addLayers [size]) with ⟨t, hrun, hgains⟩
  refine ⟨t, hrun, hgains.arranged_nodup (fun e he => ?_) (nodup_forwardPairs (nodup_layerIds _ _))⟩
  have hends := (sublist_of_mem_forwardPairs he).subset
  rw [hflatten]
  exact ⟨hends List.mem_cons_self, hends (List.mem_cons_of_mem _ List.mem_cons_self)⟩

/-!
## Building
-/

/-- What is built has no parallel synapses exactly if no connection repeats. -/
theorem Arranged.build {α : Type} [Scalar α] (h : Arranged sizes b) :
    ∃ ns ss t, ∃ c : Compiled α, Builder.build.outcome b = (.ok (ns, ss), t) ∧
      Compiled.compile ns ss = .ok c ∧
      ((ss.map Synapse.ends).Nodup ↔ b.edges.toList.Nodup) ∧
      (Compiled.OwnCells ss c ↔ b.edges.toList.Nodup) := by
  rcases outcome_build h.activation h.scale with ⟨ns, ss, t, hbuild, hids, -, hends⟩
  rw [h.layers] at hids
  have htext : ∀ n ∈ ns, n.id.IsText := by
    intro n hn
    have hmem : n.id ∈ (names sizes).flatten.map .text := hids ▸ List.mem_map_of_mem hn
    rcases List.mem_map.mp hmem with ⟨id, -, hid⟩
    exact ⟨id, hid.symm⟩
  have hnodup : (ns.map Neuron.id).Nodup := by
    rw [hids]
    exact (nodup_flatten_names sizes).map fun _ _ => Value.text.inj
  have hknown : ∀ s ∈ ss, s.source ∈ ns.map Neuron.id ∧ s.target ∈ ns.map Neuron.id := by
    intro s hs
    have hmem : s.ends ∈ b.edges.toList.map fun e => (Value.text e.1, Value.text e.2) :=
      hends ▸ List.mem_map_of_mem hs
    rcases List.mem_map.mp hmem with ⟨e, he, hends⟩
    rw [hids, ← (Prod.mk.inj hends).1, ← (Prod.mk.inj hends).2]
    exact ⟨List.mem_map_of_mem (h.ends e he).1, List.mem_map_of_mem (h.ends e he).2⟩
  have hscalar : ∀ u ∈ ns.map Neuron.id, u.isScalar = true :=
    fun u hu => (Value.idClass_isText.isKey u (text_of_mem_ids htext hu)).1
  have happart : (ss.map Synapse.ends).Nodup ↔ b.edges.toList.Nodup := by
    have hmap : ss.map Synapse.ends = b.edges.toList.map fun e => (.text e.1, .text e.2) := hends
    rw [hmap]
    apply List.nodup_map_iff
    intro e f heq
    rcases Prod.mk.inj heq with ⟨hsource, htarget⟩
    exact Prod.ext (Value.text.inj hsource) (Value.text.inj htarget)
  refine ⟨ns, ss, t, Compiled.flatten ns ss, hbuild, Compiled.compile_eq_ok htext ?_, happart, ?_⟩
  · exact fun s hs => ⟨hscalar _ (hknown s hs).1, hscalar _ (hknown s hs).2⟩
  · exact (Compiled.ownCells_flatten_iff htext hnodup hknown).trans happart

end Builder

namespace Recipe

open Builder

/-- The arguments of a recipe for a network, feed-forward or not, with the sizes of its layers. -/
inductive Readable (fs : List (String × Value)) : Topology → List Nat → Prop where
  | forward {t : Topology} {sizes : List Nat} (h : Reads fs t sizes) : Readable fs t sizes
  | recurrent {sizes : List Nat} {p : Number}
      (hsizes : Recipe.sizes (Value.optional fs "layer_sizes" .null) = .ok sizes)
      (hp : (Value.optional fs "recurrent_prob" (.real 0.1)).toNumber = .ok p) :
      Readable fs .recurrent sizes

/-- Whether a recipe asks for skips to the next layer where there are neurons to connect. -/
def SkipsToNext (fs : List (String × Value)) (t : Topology) (sizes : List Nat) : Prop :=
  t = .residual ∧ Recipe.stride (Value.optional fs "skip_frequency" (.int 2)) = .ok 1 ∧
    Adjoining sizes

variable {σ : Type} [Draws σ] {fs : List (String × Value)} {t : Topology} {sizes : List Nat}

/-- Only skips to the next layer repeat connections, whatever is drawn. -/
theorem layOut_arranged (h : Readable fs t sizes) (source : σ) :
    ∃ b, (layOut t fs).outcome (start defaultActivation defaultScale source) = (.ok ⟨⟩, b) ∧
      Arranged sizes b ∧ (b.edges.toList.Nodup ↔ ¬SkipsToNext fs t sizes) := by
  have hother {b : Builder σ} (ht : t ≠ .residual)
      (hb : Arranged sizes b ∧ b.edges.toList.Nodup) :
      Arranged sizes b ∧ (b.edges.toList.Nodup ↔ ¬SkipsToNext fs t sizes) :=
    ⟨hb.1, fun _ hskips => ht hskips.1, fun _ => hb.2⟩
  cases h with
  | forward h =>
      cases h with
      | mlp hsizes =>
          exact ⟨_, outcome_layOut_mlp hsizes _, hother (by decide) (arranged_mlp sizes source)⟩
      | sparseMlp hsizes hp =>
          rw [layOut]
          dsimp only
          rw [hsizes, Attempt.outcome_of_ok_bind]
          rcases arranged_sparseMlp hp sizes source with ⟨b, hrun, hb⟩
          exact ⟨b, hrun, hother (by decide) hb⟩
      | @residual _ stride hsizes hstride hpositive =>
          rw [layOut]
          dsimp only
          rw [hsizes, Attempt.outcome_of_ok_bind, hstride, Attempt.outcome_of_ok_bind]
          rcases arranged_residual sizes stride source with ⟨harranged, hnodup⟩
          refine ⟨_, Attempt.outcome_modify _ _, harranged, hnodup.trans ?_⟩
          rw [SkipsToNext, hstride, Except.ok.injEq]
          constructor
          · rintro hnot ⟨-, hskips⟩
            exact hnot hskips
          · rintro hnot hskips
            exact hnot ⟨rfl, hskips⟩
      | randomDag hsize hp =>
          rw [layOut]
          dsimp only
          rw [hsize, Attempt.outcome_of_ok_bind]
          rcases arranged_randomDag hp _ source with ⟨b, hrun, hb⟩
          exact ⟨b, hrun, hother (by decide) hb⟩
  | recurrent hsizes hp =>
      rw [layOut]
      dsimp only
      rw [hsizes, Attempt.outcome_of_ok_bind]
      rcases arranged_recurrent hp sizes _ source with ⟨b, hrun, hb⟩
      exact ⟨b, hrun, hother (by decide) hb⟩

/--
The synapses of a network that is built from a recipe have different ends, and each determines a
cell of the compiled matrix, whatever is drawn, unless layers are connected by skips that were
already connected as neighbours.
-/
theorem layOut_build_ownCells_iff {α : Type} [Scalar α] (h : Readable fs t sizes) (source : σ) :
    ∃ ns ss b, ∃ c : Compiled α, (layOut t fs >>= fun _ => Builder.build).outcome
        (start defaultActivation defaultScale source) = (.ok (ns, ss), b) ∧
      Compiled.compile ns ss = .ok c ∧
      ((ss.map Synapse.ends).Nodup ↔ ¬SkipsToNext fs t sizes) ∧
      (Compiled.OwnCells ss c ↔ ¬SkipsToNext fs t sizes) := by
  rcases layOut_arranged h source with ⟨b, hlayOut, harranged, hnodup⟩
  rcases harranged.build (α := α) with ⟨ns, ss, b', c, hbuild, hcompile, hends, hcells⟩
  refine ⟨ns, ss, b', c, ?_, hcompile, hends.trans hnodup, hcells.trans hnodup⟩
  rw [Attempt.outcome_bind_of_ok hlayOut, hbuild]

/-- The arguments for a stack of three layers that also connect within themselves. -/
def loopedLayers : List (String × Value) :=
  [("layer_sizes", .list [.int 2, .int 3, .int 1]), ("recurrent_prob", .real 0.5)]

theorem layOut_build_ownCells_iff_looped :
    ∃ ns ss b, ∃ c : Compiled Float32,
      (layOut .recurrent loopedLayers >>= fun _ => Builder.build).outcome
        (start defaultActivation defaultScale (Generator.ofEntropy [7])) = (.ok (ns, ss), b) ∧
      Compiled.compile ns ss = .ok c ∧ (ss.map Synapse.ends).Nodup ∧ Compiled.OwnCells ss c := by
  have hother : ¬SkipsToNext loopedLayers .recurrent [2, 3, 1] := by
    rintro ⟨ht, -⟩
    cases ht
  have hreadable : Readable loopedLayers .recurrent [2, 3, 1] := .recurrent rfl rfl
  rcases layOut_build_ownCells_iff (α := Float32) hreadable
    (Generator.ofEntropy [7]) with ⟨ns, ss, b, c, hrun, hcompile, hends, hcells⟩
  exact ⟨ns, ss, b, c, hrun, hcompile, hends.mpr hother, hcells.mpr hother⟩

/-- The arguments for two layers of a neuron each, with skips to the next layer. -/
def nextSkips : List (String × Value) :=
  [("layer_sizes", .list [.int 1, .int 1]), ("skip_frequency", .int 1)]

/-- Two neurons are connected twice. -/
theorem ends_repeat_nextSkips :
    ∃ ns ss b, (layOut .residual nextSkips >>= fun _ => Builder.build).outcome
        (start defaultActivation defaultScale (Generator.ofEntropy [0])) = (.ok (ns, ss), b) ∧
      ¬(ss.map Synapse.ends).Nodup := by
  have hskips : SkipsToNext nextSkips .residual [1, 1] := ⟨rfl, rfl, 0, 0, 0, rfl, rfl⟩
  have hreads : Reads nextSkips .residual [1, 1] := .residual rfl rfl (Nat.le_refl 1)
  rcases layOut_arranged (.forward hreads) (Generator.ofEntropy [0]) with
    ⟨b, hlayOut, harranged, hnodup⟩
  rcases harranged.build (α := Float32) with ⟨ns, ss, b', -, hbuild, -, hends, -⟩
  refine ⟨ns, ss, b', ?_, fun h => hnodup.mp (hends.mp h) hskips⟩
  rw [Attempt.outcome_bind_of_ok hlayOut, hbuild]

end Recipe
end Plexus
