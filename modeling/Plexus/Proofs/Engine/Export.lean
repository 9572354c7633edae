import Plexus.Proofs.Engine.Retention

/-!
# Exporting a network and importing it

An engine writes trained parameters back before it exports its graph, so the document says
what the backend runs.  An engine with the same settings that imports the document runs the
same parameters, since storing a parameter once more does not change it.  Only weights that
training has grown between neurons without a synapse are lost: the document has no place for
them.
-/

namespace Plexus

/-- A neuron without its bias. -/
def Neuron.outline (n : Neuron) : Value × Kind × Value := (n.id, n.kind, n.activation)

/-- A synapse without its weight. -/
def Synapse.outline (s : Synapse) : Value × Value × Value := (s.id, s.source, s.target)

namespace Engine

open Attempt
open Scalar (Like Lossless Storable)
open Value (IdClass)

variable {α : Type} [Scalar α] {P : Value → Prop}

/-!
## Exporting
-/

theorem outline_synced (c : Compiled α) (weights biases : Array α) (e : Engine α) :
    (e.synced c weights biases).neurons.map Neuron.outline = e.neurons.map Neuron.outline ∧
      (e.synced c weights biases).synapses.map Synapse.outline =
        e.synapses.map Synapse.outline := by
  constructor
  · simp [synced, Neuron.outline, Function.comp_def]
  · simp [synced, Synapse.outline, Function.comp_def]

theorem Saved.outlines {e e₁ : Engine α} (h : e.Saved e₁) :
    e₁.neurons.map Neuron.outline = e.neurons.map Neuron.outline ∧
      e₁.synapses.map Synapse.outline = e.synapses.map Synapse.outline := by
  rcases h with ⟨-, rfl⟩ | ⟨-, c, weights, biases, -, -, rfl⟩
  · exact ⟨rfl, rfl⟩
  · exact outline_synced c weights biases e

theorem Saved.links_eq {e e₁ : Engine α} (h : e.Saved e₁) (source target : Value) :
    e₁.links source target = e.links source target := by
  have hlinks : ∀ t : Engine α, t.links source target =
      (t.synapses.map Synapse.outline).any fun s => s.2.1.same source && s.2.2.same target := by
    intro t
    rw [List.any_map]
    rfl
  rw [hlinks, hlinks, h.outlines.2]

theorem Saved.training {e e₁ : Engine α} (h : e.Saved e₁) : e₁.training = e.training := by
  rcases h with ⟨-, rfl⟩ | ⟨-, c, weights, biases, -, -, rfl⟩
  · rfl
  · rfl

theorem Saved.exists_place {c : Compiled α} {rows : Nat} {a : Arena α} {b : Backend α}
    {e e₁ : Engine α} {n : Neuron} (hsaved : e.Saved e₁) (hP : IdClass P) (he : e.Coherent P)
    (h : e.Fits c rows a b) (hn : n ∈ e.neurons) :
    ∃ m ∈ e₁.neurons, m.id = n.id ∧ e₁.neurons[c.place n.id]? = some m := by
  have hid : n.id ∈ e₁.neurons.map Neuron.id := by
    rw [hsaved.ids]
    exact List.mem_map_of_mem hn
  rcases List.mem_map.mp hid with ⟨m, hm, hmn⟩
  refine ⟨m, hm, hmn, ?_⟩
  rw [← hmn]
  exact ((h.toIndexes.of_ids hsaved.ids).place hP (hsaved.coherent he).stocked.neurons hm).2

/-- After writing back, the graph says what the parameters are that the backend runs. -/
theorem Saved.carries_exactly [Lossless α] [Storable α] {c : Compiled α} {rows : Nat}
    {a : Arena α} {b : Backend α} {e e₁ : Engine α} (hsaved : e.Saved e₁)
    (h : e.Reachable Value.IsText) (hc : e.compiled = some c) (hfits : e.Fits c rows a b) :
    e₁.Carries e.training.basePrecision a.weights a.biases := by
  rcases hsaved with ⟨huntrained, rfl⟩ | ⟨-, d, weights, biases, hd, hparameters, rfl⟩
  -- Nothing has been written back, so the graph is still the one that was compiled.
  · exact h.retains huntrained c _ _ hc hfits.parameters_eq
  · rw [hfits.parameters_eq] at hparameters
    cases hparameters
    exact carries_stored (h.coherent Value.idClass_isText) h.rounded hd hfits.parameters_eq

/-- Exporting a compiled graph never fails. -/
theorem exportGraph_eq_ok {e : Engine α} (hP : IdClass P) (h : e.Coherent P)
    (hc : e.compiled.isSome = true) :
    ∃ e₁, e.Saved e₁ ∧ e₁.Coherent P ∧ exportGraph.outcome e =
      (.ok (Document.build e₁.neurons e₁.synapses e₁.settings.version), e₁) := by
  rcases syncIfTrained_cases hP h with ⟨hnone, -⟩ | ⟨e₁, hsaved, h₁, hrun⟩
  · rw [hnone] at hc
    cases hc
  · refine ⟨e₁, hsaved, h₁, ?_⟩
    rw [exportGraph, outcome_bind_of_ok hrun, outcome_get_bind, outcome_pure]

/-!
## The network that an engine runs
-/

/-- The activations that the backend applies. -/
def runningActivations (e : Engine α) : Option (Array Activation) :=
  (e.backend.bind Backend.arena).map Arena.codes

omit [Scalar α] in
theorem Fits.runningActivations_eq {c : Compiled α} {rows : Nat} {a : Arena α} {b : Backend α}
    {e : Engine α} (h : e.Fits c rows a b) :
    e.runningActivations = some a.codes := by
  simp only [runningActivations, h.backend, Option.bind_some, Backend.arena, Backend.held,
    h.holds.machine, Holding.arena?, Option.map_some]

omit [Scalar α] in
theorem Fits.activations_eq {c c' : Compiled α} {rows rows' : Nat} {a a' : Arena α}
    {b b' : Backend α} {e e' : Engine α} (h : e.Fits c rows a b) (h' : e'.Fits c' rows' a' b')
    (hsame : e'.neurons.map Neuron.activation = e.neurons.map Neuron.activation) :
    e'.runningActivations = e.runningActivations := by
  have htags := h'.tags
  rw [hsame, h.tags, Except.ok.injEq] at htags
  rw [h.runningActivations_eq, h'.runningActivations_eq, Array.toList_inj.mp htags]

variable [Storable α]

theorem Mirrored.runningBias_eq {e : Engine α} {n : Neuron} (h : e.Mirrored)
    (he : e.Coherent Value.IsText) (hsome : e.compiled.isSome = true) (hn : n ∈ e.neurons) :
    e.runningBias n.id =
      some (Scalar.store e.training.basePrecision (Scalar.ofFloat n.bias)) := by
  rcases he.exists_fits hsome with ⟨c, rows, a, b, hc, hfits⟩
  have hplace := (hfits.place Value.idClass_isText he.stocked.neurons hn).2
  rw [hfits.runningBias_eq hc, (h.arena_eq hc hfits).2, cell_map_store,
    Compiled.cell_biases_flatten _ hplace]

theorem Mirrored.runningWeight_eq {e : Engine α} {u v : Neuron} (h : e.Mirrored)
    (he : e.Coherent Value.IsText) (hsome : e.compiled.isSome = true) (hu : u ∈ e.neurons)
    (hv : v ∈ e.neurons) :
    e.runningWeight u.id v.id = some (Scalar.store e.training.basePrecision
      (Compiled.weightOf (Synapse.lastJoining e.synapses u.id v.id))) := by
  have hdistinct := he.stocked.neurons
  rcases he.exists_fits hsome with ⟨c, rows, a, b, hc, hfits⟩
  have huPlace := (hfits.place Value.idClass_isText hdistinct hu).2
  have hvPlace := (hfits.place Value.idClass_isText hdistinct hv).2
  rw [hfits.runningWeight_eq hc, (h.arena_eq hc hfits).1, cell_map_store, hfits.size,
    Compiled.cell_weights_flatten hdistinct.apart hdistinct.named he.stocked.ends huPlace hvPlace]

/--
An engine that has the graph of another one, and the parameters that the other runs wherever
its graph has a place for them.
-/
structure Reproduces (e e' : Engine α) : Prop where
  stored : e'.neuronStore.getAll = .ok e'.neurons ∧ e'.synapseStore.getAll = .ok e'.synapses
  neurons : e'.neurons.map Neuron.outline = e.neurons.map Neuron.outline
  synapses : e'.synapses.map Synapse.outline = e.synapses.map Synapse.outline
  ids : e'.compiled.map Compiled.ids = some (e.neurons.map Neuron.id)
  activations : e'.runningActivations = e.runningActivations
  bias : ∀ n ∈ e.neurons, Alike (e'.runningBias n.id) (e.runningBias n.id)
  weight : ∀ u ∈ e.neurons, ∀ v ∈ e.neurons, e.links u.id v.id = true →
    Alike (e'.runningWeight u.id v.id) (e.runningWeight u.id v.id)
  unlinked : ∀ u ∈ e.neurons, ∀ v ∈ e.neurons, e.links u.id v.id = false →
    e'.runningWeight u.id v.id = some Scalar.zero

/-!
## The engine that imports

The engine `e` has been saved as `e₁`, and `e'` has compiled the graph of `e₁`.  A neuron of `e`
keeps its identifier, so it is at the same place in all three; the graph of `e₁` carries the
parameters that `e` runs, and `e'` runs what the graph of `e₁` carries.
-/

section Copied

variable {c : Compiled α} {rows : Nat} {a : Arena α} {b : Backend α} {settings : TrainingSettings}
  {e e₁ e' : Engine α}
  (he : e.Coherent Value.IsText) (hc : e.compiled = some c) (hfits : e.Fits c rows a b)
  (hsaved : e.Saved e₁) (hcarries : e₁.Carries settings.basePrecision a.weights a.biases)
  (hrebuilt : e'.Rebuilt Value.IsText e₁.neurons e₁.synapses settings)
  (hcompiled : e'.compiled.isSome = true)

include he hfits hsaved hrebuilt

omit [Storable α] in
theorem exists_copy {n : Neuron} (hn : n ∈ e.neurons) :
    ∃ m ∈ e'.neurons, m.id = n.id ∧ e₁.neurons[c.place n.id]? = some m := by
  rw [hrebuilt.neurons]
  exact hsaved.exists_place Value.idClass_isText he hfits hn

include hcompiled

theorem runningWeight_copy {u v : Neuron} (hu : u ∈ e.neurons) (hv : v ∈ e.neurons) :
    e'.runningWeight u.id v.id = some (Scalar.store settings.basePrecision
      (Compiled.weightOf (Synapse.lastJoining e₁.synapses u.id v.id))) := by
  rcases exists_copy he hfits hsaved hrebuilt hu with ⟨u', hu', huId, -⟩
  rcases exists_copy he hfits hsaved hrebuilt hv with ⟨v', hv', hvId, -⟩
  have hweight := hrebuilt.mirrored.runningWeight_eq hrebuilt.coherent hcompiled hu' hv'
  rw [huId, hvId, hrebuilt.training, hrebuilt.synapses] at hweight
  exact hweight

theorem runningWeight_of_unlinked {u v : Neuron} (hu : u ∈ e.neurons) (hv : v ∈ e.neurons)
    (hunlinked : e.links u.id v.id = false) :
    e'.runningWeight u.id v.id = some Scalar.zero := by
  rw [← hsaved.links_eq] at hunlinked
  rw [runningWeight_copy he hfits hsaved hrebuilt hcompiled hu hv,
    Synapse.lastJoining_eq_none hunlinked, Compiled.weightOf, Storable.store_zero]

include hc hcarries

theorem alike_bias {n : Neuron} (hn : n ∈ e.neurons) :
    Alike (e'.runningBias n.id) (e.runningBias n.id) := by
  rcases exists_copy he hfits hsaved hrebuilt hn with ⟨m, hm, hid, hget⟩
  have hbias := hrebuilt.mirrored.runningBias_eq hrebuilt.coherent hcompiled hm
  rw [hid, hrebuilt.training] at hbias
  exact ⟨_, _, hbias, hfits.runningBias_eq hc n.id, hcarries.bias _ _ hget⟩

theorem alike_weight {u v : Neuron} (hu : u ∈ e.neurons) (hv : v ∈ e.neurons)
    (hlinked : e.links u.id v.id = true) :
    Alike (e'.runningWeight u.id v.id) (e.runningWeight u.id v.id) := by
  rcases exists_copy he hfits hsaved hrebuilt hu with ⟨u', -, huId, huGet⟩
  rcases exists_copy he hfits hsaved hrebuilt hv with ⟨v', -, hvId, hvGet⟩
  have hlength : e₁.neurons.length = c.size := by
    rw [hfits.size, ← List.length_map Neuron.id, hsaved.ids, List.length_map]
  rw [← hsaved.links_eq] at hlinked
  rcases List.any_eq_true.mp hlinked with ⟨d, hd, hjoins⟩
  rcases Synapse.lastJoining_of_mem hd hjoins with ⟨s, hs⟩
  have hweight := runningWeight_copy he hfits hsaved hrebuilt hcompiled hu hv
  rw [hs] at hweight
  refine ⟨_, _, hweight, hfits.runningWeight_eq hc u.id v.id, ?_⟩
  rw [← huId, ← hvId] at hs
  rw [← hlength]
  exact hcarries.weight _ _ u' v' s huGet hvGet hs

theorem reproduces_of_rebuilt : e.Reproduces e' := by
  rcases hrebuilt.coherent.exists_fits hcompiled with ⟨c', rows', a', b', hc', hfits'⟩
  have houtlines : e'.neurons.map Neuron.outline = e.neurons.map Neuron.outline := by
    rw [hrebuilt.neurons, hsaved.outlines.1]
  constructor
  case stored => exact hrebuilt.coherent.stocked.getAll
  case neurons => exact houtlines
  case synapses => rw [hrebuilt.synapses, hsaved.outlines.2]
  case ids => rw [hc', Option.map_some, hfits'.ids, hrebuilt.neurons, hsaved.ids]
  case activations =>
    have htags := congrArg (List.map fun o => o.2.2) houtlines
    rw [List.map_map, List.map_map] at htags
    exact hfits.activations_eq hfits' htags
  case bias =>
    intro n hn
    exact alike_bias he hc hfits hsaved hcarries hrebuilt hcompiled hn
  case weight =>
    intro u hu v hv hlinked
    exact alike_weight he hc hfits hsaved hcarries hrebuilt hcompiled hu hv hlinked
  case unlinked =>
    intro u hu v hv hunlinked
    exact runningWeight_of_unlinked he hfits hsaved hrebuilt hcompiled hu hv hunlinked

end Copied

/--
What a compiled engine exports is imported by any engine with the same settings that has just
been initialised where there is as much room, and reproduces the network, whatever was done with
the engine before.
-/
theorem import_reproduces_export {e f : Engine Float32} (h : e.Reachable Value.IsText)
    (hc : e.compiled.isSome = true) (hf : f.Startable Value.IsText)
    (hinit : init.succeeds f = true) (hsettings : f.training = e.training)
    (hroom : Machine.hasRoom e.memory e.size e.batch →
      Machine.hasRoom (init.after f).memory e.size e.batch) :
    ∃ doc, (exportGraph.outcome e).1 = .ok doc ∧
      (importGraph doc).succeeds (init.after f) = true ∧
      e.Reproduces ((importGraph doc).after (init.after f)) := by
  have hP := Value.idClass_isText
  have he := h.coherent hP
  rcases he.exists_fits hc with ⟨c, rows, a, b, hc, hfits⟩
  rcases exportGraph_eq_ok hP he (by rw [hc]; rfl) with ⟨e₁, hsaved, h₁, hexport⟩
  have hc₁ : e₁.compiled = some c := hsaved.compiled.trans hc
  rcases h₁.fits c hc₁ with ⟨rows₁, a₁, b₁, hfits₁⟩
  rcases hf.rebuilt hP hinit with ⟨ns, ss, hfresh, -⟩
  have htraining : (init.after f).training = e₁.training := by
    rw [hfresh.training, hsettings, hsaved.training]
  have hbatch : (init.after f).training.microBatchSize = .whole rows₁ := by
    rw [htraining]
    exact hfits₁.batch
  -- The network is as large as the one that is running, so there is room for it.
  have hsize : e.size = c.size := by rw [size, hc, Option.map_some, Option.getD_some]
  have hrows : e.batch = rows₁ := by
    rw [batch, ← hsaved.training, hfits₁.batch]
    rfl
  have hrunning : Machine.hasRoom e.memory e.size e.batch = true := by
    rw [memory_eq hfits.backend, hsize, hfits.batch_eq, ← hfits.backendSize]
    exact hfits.holds.room
  have hroom := hroom hrunning
  rw [hsize, hfits₁.size, hrows] at hroom
  have hparse : Document.parse (Document.build e₁.neurons e₁.synapses e₁.settings.version) =
      .ok (e₁.neurons, e₁.synapses) := Document.parse_build hfits₁.known _
  rcases importGraph_of_hasRoom hP hfresh.coherent hparse h₁.stocked.neurons h₁.stocked.synapses
    h₁.stocked.ends hbatch hroom hfits₁.tags with ⟨p, e', himport, hrebuilt, hcompiled⟩
  refine ⟨_, congrArg Prod.fst hexport, succeeds_of_ok (congrArg Prod.fst himport), ?_⟩
  rw [after_of_outcome himport]
  apply reproduces_of_rebuilt he hc hfits hsaved ?_ hrebuilt hcompiled
  rw [htraining, hsaved.training]
  exact hsaved.carries_exactly h hc hfits

/-- The engine on parallel synapses in half precision, with a synapse that leads nowhere. -/
def halfParallel : Engine Float32 :=
  (Action.setTraining { TrainingSettings.default with basePrecision := .fp16 }).perform.after
    ((Action.addSynapse ⟨.text "w", .text "a", .text "z", 3.0⟩).perform.after
      (init.after parallel))

/-- The engine after a training tick. -/
def trainedHalf : Engine Float32 :=
  (Action.trainTick (some (.ok #[1.0, 0.0])) none none).perform.after
    ((Action.prepareTraining (.ok #[0.0, 1.0]) none).perform.after halfParallel)

theorem reachable_trainedHalf : trainedHalf.Reachable Value.IsText := by
  have hends : (Action.addSynapse ⟨.text "w", .text "a", .text "z", 3.0⟩).Admissible
      Value.IsText (init.after parallel) := ⟨⟨"w", rfl⟩, ⟨"a", rfl⟩, ⟨"z", rfl⟩⟩
  have hadded := reachable_parallel.step _ hends
  have hhalf : halfParallel.Reachable Value.IsText := hadded.step (.setTraining _) trivial
  have hprepared := hhalf.step (.prepareTraining (.ok #[0.0, 1.0]) none) trivial
  exact hprepared.step (.trainTick (some (.ok #[1.0, 0.0])) none none) trivial

/-- A new engine on empty stores with the settings of another one. -/
def beside (e : Engine Float32) : Engine Float32 :=
  create {} .trainable e.training (.keyed .empty) (.keyed .empty) none

theorem startable_beside : (beside trainedHalf).Startable Value.IsText := by
  have hcreate : createOn {} .trainable trainedHalf.training [] [] none =
      .ok (beside trainedHalf) := rfl
  refine startable_of_createOn Value.idClass_isText ?_ ?_ hcreate (by decide +kernel) rfl
  · intro n hn
    cases hn
  · intro s hs
    cases hs

theorem import_reproduces_export_trainedHalf :
    trainedHalf.trained = true ∧ trainedHalf.training.basePrecision = .fp16 ∧
      ∃ doc, (exportGraph.outcome trainedHalf).1 = .ok doc ∧
        (importGraph doc).succeeds (init.after (beside trainedHalf)) = true ∧
        trainedHalf.Reproduces ((importGraph doc).after (init.after (beside trainedHalf))) := by
  refine ⟨by decide +kernel, by decide +kernel, ?_⟩
  exact import_reproduces_export reachable_trainedHalf (by decide +kernel) startable_beside
    (by decide +kernel) rfl fun _ => by decide +kernel

end Engine
end Plexus
