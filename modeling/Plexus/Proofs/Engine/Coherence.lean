import Plexus.Engine.Tick
import Plexus.Engine.Mutation
import Plexus.Proofs.Backend.Lifecycle
import Plexus.Proofs.Compiled.Flatten
import Plexus.Proofs.Store.Keyed

/-!
# Coherent engines

An engine on keyed stores and a dense backend is coherent if its cache is what the stores
hold, and if a compiled graph fits the cache, the backend and the buffers of the engine.
Compiling a cache makes the engine coherent, whether the backend takes the graph or not.
-/

namespace Plexus
namespace Engine

open Attempt
open Value (IdClass)

variable {α β : Type} {P : Value → Prop}

/-- An engine whose keyed stores hold some neurons and synapses. -/
structure Stocked (P : Value → Prop) (ns : List Neuron) (ss : List Synapse) (e : Engine α) :
    Prop where
  neuronStore : e.neuronStore = .keyed (.ofList ns)
  synapseStore : e.synapseStore = .keyed (.ofList ss)
  neurons : Distinct P ns
  synapses : Distinct P ss
  ends : ∀ s ∈ ss, P s.source ∧ P s.target

/-- An engine with a dense backend that is set up, and with a usable rate if training is. -/
structure Equipped (e : Engine α) : Prop where
  backend : ∃ b, e.backend = some b ∧ b.Equipped e.training
  rate : e.targets.isSome = true → ∃ x, e.rate.toFloat = .ok x

/-- What a compiled engine agrees on with its cache and with its backend. -/
structure Fits (c : Compiled α) (rows : Nat) (a : Arena α) (b : Backend α) (e : Engine α) : Prop
    extends Compiled.Indexes e.neurons c where
  backend : e.backend = some b
  holds : b.Holds e.training rows a
  backendSize : b.size = c.size
  batch : e.training.microBatchSize = .whole rows
  tags : (e.neurons.map Neuron.activation).mapM Activation.ofValue = .ok a.codes.toList
  staged : e.staged.size = c.size * rows
  targets : e.targets = a.training.map TrainingBuffers.targets

/-- A coherent engine. -/
structure Coherent (P : Value → Prop) (e : Engine α) : Prop where
  stocked : e.Stocked P e.neurons e.synapses
  equipped : e.Equipped
  fits : ∀ c, e.compiled = some c → ∃ rows a b, e.Fits c rows a b

/-- The weights and the biases of the network that the backend runs. -/
def parameters (e : Engine α) : Option (Array α × Array α) :=
  (e.backend.bind Backend.arena).map fun a => (a.weights, a.biases)

theorem Fits.parameters_eq {c : Compiled α} {rows : Nat} {a : Arena α} {b : Backend α}
    {e : Engine α} (h : e.Fits c rows a b) :
    e.parameters = some (a.weights, a.biases) := by
  simp only [parameters, h.backend, Option.bind_some, Backend.arena, Backend.held,
    h.holds.machine, Holding.arena?, Option.map_some]

theorem Coherent.exists_fits {e : Engine α} (h : e.Coherent P)
    (hcompiled : e.compiled.isSome = true) :
    ∃ c rows a b, e.compiled = some c ∧ e.Fits c rows a b := by
  rcases Option.isSome_iff_exists.mp hcompiled with ⟨c, hc⟩
  rcases h.fits c hc with ⟨rows, a, b, hfits⟩
  exact ⟨c, rows, a, b, hc, hfits⟩

theorem outcome_onBackend {e : Engine α} {b : Backend α} (h : e.backend = some b)
    (step : Attempt (Backend α) β) :
    (onBackend step).outcome e =
      ((step.outcome b).1, { e with backend := some (step.outcome b).2 }) := by
  show onBackend step e = _
  rw [onBackend, h]

theorem hasReadyBackend_iff {e : Engine α} :
    e.hasReadyBackend = true ↔ ∃ b, e.backend = some b ∧ .ready ≤ b.stage := by
  have hready : ∀ b : Backend α, (b.stage != .uninitialized) = true ↔ .ready ≤ b.stage := by
    intro b
    cases b.stage <;> decide
  cases hb : e.backend with
  | none => simp [hasReadyBackend, hb]
  | some b => simp only [hasReadyBackend, hb, hready, Option.some.injEq, exists_eq_left']

theorem Equipped.hasReadyBackend {e : Engine α} (h : e.Equipped) :
    e.hasReadyBackend = true := by
  rcases h.backend with ⟨b, hb, hequipped⟩
  exact hasReadyBackend_iff.mpr ⟨b, hb, hequipped.ready⟩

/-- A stocked graph has identifiers that can name something. -/
theorem Stocked.nameable {ns : List Neuron} {ss : List Synapse} {e : Engine α} (hP : IdClass P)
    (h : e.Stocked P ns ss) :
    Compiled.nameable ns ss = true := by
  simp only [Compiled.nameable, Bool.and_eq_true, List.all_eq_true]
  constructor
  · intro n hn
    exact (hP.isKey _ (h.neurons.named n hn)).1
  · intro s hs
    exact ⟨(hP.isKey _ (h.ends s hs).1).1, (hP.isKey _ (h.ends s hs).2).1⟩

/-!
## Reading the stores
-/

/-- The engine with a graph in its cache. -/
def withCache (ns : List Neuron) (ss : List Synapse) (e : Engine α) : Engine α :=
  { e with neurons := ns, written := [], synapses := ss }

/-- What the stores hold does not depend on the rest of the engine. -/
theorem Stocked.of_stores {ns : List Neuron} {ss : List Synapse} {e e' : Engine α}
    (h : e.Stocked P ns ss) (hneurons : e'.neuronStore = e.neuronStore)
    (hsynapses : e'.synapseStore = e.synapseStore) : e'.Stocked P ns ss :=
  ⟨hneurons.trans h.neuronStore, hsynapses.trans h.synapseStore, h.neurons, h.synapses, h.ends⟩

theorem Stocked.getAll {ns : List Neuron} {ss : List Synapse} {e : Engine α}
    (h : e.Stocked P ns ss) :
    e.neuronStore.getAll = .ok ns ∧ e.synapseStore.getAll = .ok ss := by
  constructor
  · rw [h.neuronStore, Store.getAll, KeyedStore.toList_ofList]
  · rw [h.synapseStore, Store.getAll, KeyedStore.toList_ofList]

theorem outcome_refresh_of_getAll {ns : List Neuron} {ss : List Synapse} {e : Engine α}
    (hns : e.neuronStore.getAll = .ok ns) (hss : e.synapseStore.getAll = .ok ss) :
    refresh.outcome e = (.ok (), e.withCache ns ss) := by
  simp only [refresh, outcome_get_bind, hns, outcome_of_ok_bind, outcome_modify_bind, hss,
    outcome_modify]
  rfl

theorem outcome_refresh {ns : List Neuron} {ss : List Synapse} {e : Engine α}
    (h : e.Stocked P ns ss) :
    refresh.outcome e = (.ok (), e.withCache ns ss) :=
  outcome_refresh_of_getAll h.getAll.1 h.getAll.2

theorem outcome_projection_of_nameable {e : Engine α}
    (h : Compiled.nameable e.neurons e.synapses = true) :
    projection.outcome e = (.ok (Projection.ofGraph e.neurons e.synapses), e) := by
  rw [projection, outcome_get_bind, Projection.project, if_pos h, outcome_of]

theorem outcome_projection {e : Engine α} (hP : IdClass P)
    (hs : e.Stocked P e.neurons e.synapses) :
    projection.outcome e = (.ok (Projection.ofGraph e.neurons e.synapses), e) :=
  outcome_projection_of_nameable (hs.nameable hP)

/-!
## Compiling
-/

theorem outcome_abandon {e : Engine α} {b : Backend α} (h : e.backend = some b) :
    abandon.outcome e =
      (.ok (), { e with compiled := none, trained := false, backend := some b.release }) := by
  simp only [abandon, outcome_modify, updateBackend, h, Option.map_some]

variable [Scalar α]

/-- Training is prepared for a new network if it was prepared for the one before. -/
theorem outcome_renewTargets {rows : Nat} {a : Arena α} {b : Backend α} {e : Engine α}
    (hb : e.backend = some b) (h : b.Holds e.training rows a) (ht : a.training = none)
    (hrate : e.targets.isSome = true → ∃ x, e.rate.toFloat = .ok x) :
    ∃ t b', (renewTargets (b.size * rows)).outcome e =
        (.ok (), { e with targets := t.map TrainingBuffers.targets, backend := some b' }) ∧
      b'.Holds e.training rows { a with training := t } ∧ b'.size = b.size ∧
      t.isSome = e.targets.isSome := by
  have htrain : e.canTrain = true := by
    rw [canTrain, hb, Option.map_some, Backend.trainable_of_dense h.machine]
    rfl
  cases htargets : e.targets with
  | none =>
      refine ⟨none, b, ?_, ?_, rfl, rfl⟩
      · simp only [renewTargets, outcome_get_bind, htargets, Option.isSome_none, Bool.false_and,
          Bool.false_eq_true, if_false, outcome_pure, Option.map_none]
        rw [← hb, ← htargets]
      · rw [← ht]
        exact h
  | some ts =>
      rcases hrate (by rw [htargets]; rfl) with ⟨x, hx⟩
      have hblank : (blankTargets (b.size * rows) : Array α).size = b.size * rows :=
        Array.size_replicate
      refine ⟨some (.allocate e.training.adapterPrecision b.size rows
        (blankTargets (b.size * rows)) x), _, ?_, h.prepared hblank, rfl, rfl⟩
      simp only [renewTargets, outcome_get_bind, htargets, htrain, Option.isSome_some,
        Bool.and_self, if_true, outcome_set_bind, hx]
      refine (outcome_onBackend (by exact hb) _).trans ?_
      rw [h.prepareTraining_of_fits hblank x]
      rfl

/--
An engine after a compilation.  Either it has compiled its cache and its backend runs the
parameters that are stored, or it has given the graph up.
-/
structure Mirrored (e : Engine α) : Prop where
  untrained : e.compiled.isSome = true → e.trained = false
  graph : ∀ c, e.compiled = some c → c = Compiled.flatten e.neurons e.synapses
  parameters : ∀ c, e.compiled = some c →
    e.parameters = some (c.weights.map (Scalar.store e.training.basePrecision),
      c.biases.map (Scalar.store e.training.basePrecision))

theorem mirrored_of_not_compiled {e : Engine α} (hc : e.compiled = none) : e.Mirrored := by
  constructor
  · intro hsome
    rw [hc] at hsome
    cases hsome
  · intro c hsome
    rw [hc] at hsome
    cases hsome
  · intro c hsome
    rw [hc] at hsome
    cases hsome

/-- After a compilation the backend runs the graph, as precisely as it stores parameters. -/
theorem Mirrored.arena_eq {c : Compiled α} {rows : Nat} {a : Arena α} {b : Backend α}
    {e : Engine α} (h : e.Mirrored) (hc : e.compiled = some c) (hfits : e.Fits c rows a b) :
    a.weights = (Compiled.flatten e.neurons e.synapses).weights.map
        (Scalar.store e.training.basePrecision) ∧
      a.biases = (Compiled.flatten e.neurons e.synapses).biases.map
        (Scalar.store e.training.basePrecision) := by
  have hparameters := h.parameters c hc
  rw [hfits.parameters_eq, h.graph c hc, Option.some.injEq, Prod.mk.injEq] at hparameters
  exact hparameters

/-- What a compilation may change of an engine: nothing of the graph it is given. -/
structure SameGraph (e e' : Engine α) : Prop where
  neuronStore : e'.neuronStore = e.neuronStore
  synapseStore : e'.synapseStore = e.synapseStore
  neurons : e'.neurons = e.neurons
  synapses : e'.synapses = e.synapses
  training : e'.training = e.training

/-- A graph is refused and the backend stays set up, or it is loaded. -/
theorem load_cases {c : Compiled α} {b : Backend α} {e : Engine α} (hb : e.backend = some b)
    (h : b.Equipped e.training) :
    (∃ f b', (load c).outcome e = (.error f, { e with backend := some b' }) ∧
        b'.Equipped e.training) ∨
      ∃ (rows : Nat) (codes : List Activation), e.training.microBatchSize = .whole rows ∧
        Machine.hasRoom b.host.memory c.size rows = true ∧
        c.activations.mapM Activation.ofValue = .ok codes ∧
        (load c).outcome e = (.ok (), { e with
          backend := some (b.loaded e.training c.size rows c.weights c.biases codes) }) := by
  rw [load, outcome_get_bind, outcome_onBackend hb]
  rcases Backend.prepare_cases h e.training.microBatchSize_not_less with
    ⟨f, b', hprepare, hb'⟩ | ⟨rows, codes, hrows, hroom, hcodes, hprepare⟩
  · rw [hprepare]
    exact Or.inl ⟨f, b', rfl, hb'⟩
  · rw [hprepare]
    exact Or.inr ⟨rows, codes, hrows, hroom, hcodes, rfl⟩

theorem outcome_load_of_hasRoom {c : Compiled α} {rows : Nat} {codes : List Activation}
    {b : Backend α} {e : Engine α} (hb : e.backend = some b) (h : b.Equipped e.training)
    (hbatch : e.training.microBatchSize = .whole rows)
    (hroom : Machine.hasRoom b.host.memory c.size rows = true)
    (hweights : c.weights.size = c.size * c.size) (hbiases : c.biases.size = c.size)
    (hlength : c.activations.length = c.size)
    (hcodes : c.activations.mapM Activation.ofValue = .ok codes) :
    (load c).outcome e = (.ok (), { e with
      backend := some (b.loaded e.training c.size rows c.weights c.biases codes) }) := by
  have hrows := e.training.microBatchSize_not_less
  rw [hbatch] at hrows
  rw [load, outcome_get_bind, outcome_onBackend hb, hbatch,
    Backend.outcome_prepare_of_hasRoom h hrows hroom hweights hbiases hlength hcodes]

omit [Scalar α] in
theorem memory_eq {b : Backend α} {e : Engine α} (hb : e.backend = some b) :
    e.memory = b.host.memory := by
  rw [memory, hb]

omit [Scalar α] in
theorem memory_updateBackend {f : Backend α → Backend α} (h : ∀ b, (f b).host = b.host)
    (e : Engine α) : (e.updateBackend f).memory = e.memory := by
  cases hb : e.backend with
  | none => simp only [memory, updateBackend, hb, Option.map_none]
  | some b => simp only [memory, updateBackend, hb, Option.map_some, h]

/-- A buffer with a cell for every slot of every row can be held. -/
theorem heldLength_eq {memory : Memory} {size rows : Nat}
    (h : Machine.hasRoom memory size rows = true) :
    Value.heldLength memory Scalar.bytes ((size : Int) * rows) = .ok (size * rows) := by
  simp only [Machine.hasRoom, Bool.and_eq_true] at h
  have hbytes : size * rows * Scalar.bytes < min Value.byteLimit memory.limit := memory.stages h.2
  have hcells : ((size : Int) * rows).toNat = size * rows := by
    rw [← Int.natCast_mul, Int.toNat_natCast]
  have hlength : Value.arrayLength Scalar.bytes ((size : Int) * rows) = .ok (size * rows) := by
    rw [Value.arrayLength, hcells, if_neg]
    rw [← Int.natCast_mul]
    omega
  rw [Value.heldLength, hlength]
  show (if memory.limit ≤ size * rows * Scalar.bytes then _ else _) = _
  rw [if_neg (by omega)]
  rfl

theorem outcome_install {c : Compiled α} {rows : Nat} {a : Arena α} {b : Backend α}
    {e : Engine α} (hb : e.backend = some b) (h : b.Holds e.training rows a)
    (ht : a.training = none) (hsize : b.size = c.size)
    (hbatch : e.training.microBatchSize = .whole rows)
    (hrate : e.targets.isSome = true → ∃ x, e.rate.toFloat = .ok x) :
    ∃ t b', (install c).outcome e =
        (.ok (), { e with
          compiled := some c, staged := Scalar.zeros (c.size * rows), trained := false
          targets := t.map TrainingBuffers.targets, backend := some b' }) ∧
      b'.Holds e.training rows { a with training := t } ∧ b'.size = c.size ∧
      t.isSome = e.targets.isSome := by
  have hroom : Machine.hasRoom b.host.memory c.size rows = true := by
    rw [← hsize]
    exact h.room
  have hmemory : ({ e with compiled := some c } : Engine α).memory = b.host.memory := memory_eq hb
  rw [install, outcome_modify_bind, outcome_get_bind]
  simp only [hbatch, hmemory, Number.toInt_whole, outcome_of_ok_bind, heldLength_eq hroom,
    outcome_modify_bind]
  rw [← hsize]
  exact outcome_renewTargets hb h ht hrate

/-- An engine whose backend has its device compiles in three steps. -/
theorem outcome_compile_of_ready {e : Engine α} (h : e.hasReadyBackend = true) :
    compile.outcome e = (of (Compiled.compile e.neurons e.synapses) >>= fun c =>
      onFault (load c) abandon >>= fun _ => install c >>= fun _ => pure c).outcome e := by
  rw [compile, outcome_get_bind, h]
  rfl

/-- A graph whose identifiers can name something is flattened, loaded and installed. -/
theorem outcome_compile_of_nameable {e : Engine α} (h : e.hasReadyBackend = true)
    (hname : Compiled.nameable e.neurons e.synapses = true) :
    compile.outcome e = (onFault (load (Compiled.flatten e.neurons e.synapses)) abandon >>= fun _ =>
      install (Compiled.flatten e.neurons e.synapses) >>= fun _ =>
        pure (Compiled.flatten e.neurons e.synapses)).outcome e := by
  have hgraph : Compiled.compile e.neurons e.synapses =
      .ok (Compiled.flatten e.neurons e.synapses : Compiled α) := by
    rw [Compiled.compile, if_pos hname]
  rw [outcome_compile_of_ready h, hgraph, outcome_of_ok_bind]

theorem outcome_compile_of_load {rows : Nat} {codes : List Activation} {b : Backend α}
    {e : Engine α} (he : e.Equipped) (hname : Compiled.nameable e.neurons e.synapses = true)
    (hbatch : e.training.microBatchSize = .whole rows)
    (hroom : Machine.hasRoom b.host.memory e.neurons.length rows = true)
    (hload : (load (Compiled.flatten e.neurons e.synapses)).outcome e = (.ok (), { e with
      backend := some (b.loaded e.training e.neurons.length rows
        (Compiled.flatten e.neurons e.synapses).weights
        (Compiled.flatten e.neurons e.synapses).biases codes) })) :
    ∃ t b', compile.outcome e =
        (.ok (Compiled.flatten e.neurons e.synapses), { e with
          compiled := some (Compiled.flatten e.neurons e.synapses)
          staged := Scalar.zeros (e.neurons.length * rows), trained := false
          targets := t.map TrainingBuffers.targets, backend := some b' }) ∧
      b'.Holds e.training rows { Arena.allocate e.training.basePrecision e.neurons.length rows
        (Compiled.flatten e.neurons e.synapses).weights
        (Compiled.flatten e.neurons e.synapses).biases codes with training := t } ∧
      b'.size = e.neurons.length ∧ t.isSome = e.targets.isSome := by
  rcases outcome_install (c := Compiled.flatten e.neurons e.synapses)
    (e := { e with backend := some (b.loaded e.training e.neurons.length rows _ _ codes) }) rfl
    (Backend.holds_loaded hroom) rfl rfl hbatch he.rate with ⟨t, b', hinstall, hholds⟩
  refine ⟨t, b', ?_, hholds⟩
  rw [outcome_compile_of_nameable he.hasReadyBackend hname,
    outcome_bind_of_ok (outcome_onFault_of_ok hload abandon), outcome_bind_of_ok hinstall]
  rfl

/-- Whatever compiling comes to, the engine still fits together. -/
theorem compile_cases {e : Engine α} (he : e.Equipped)
    (hname : Compiled.nameable e.neurons e.synapses = true) :
    ∃ r e', compile.outcome e = (r, e') ∧ e.SameGraph e' ∧ e'.Equipped ∧
      (∀ c, e'.compiled = some c → ∃ rows a b, e'.Fits c rows a b) ∧ e'.Mirrored ∧
      ∀ c, r = .ok c → e'.compiled = some c := by
  rcases he.backend with ⟨b, hb, hequipped⟩
  rcases load_cases (c := Compiled.flatten e.neurons e.synapses) hb hequipped with
    ⟨f, b', hload, hb'⟩ | ⟨rows, codes, hbatch, hroom, hcodes, hload⟩
  · rcases outcome_onFault_of_error hload abandon with ⟨f', hfault⟩
    have habandon := after_of_outcome (outcome_abandon (e := { e with backend := some b' }) rfl)
    rw [outcome_compile_of_nameable he.hasReadyBackend hname, outcome_bind_of_error hfault,
      habandon]
    refine ⟨_, _, rfl, ⟨rfl, rfl, rfl, rfl, rfl⟩, ⟨⟨_, rfl, hb'.release⟩, he.rate⟩, ?_,
      mirrored_of_not_compiled rfl, ?_⟩
    · intro c hc
      cases hc
    · intro c hc
      cases hc
  · rcases outcome_compile_of_load he hname hbatch hroom hload with
      ⟨t, b', hcompile, hb', hsize, hsome⟩
    rw [hcompile]
    refine ⟨_, _, rfl, ⟨rfl, rfl, rfl, rfl, rfl⟩, ⟨⟨b', rfl, hb'.equipped⟩, ?_⟩, ?_, ?_, ?_⟩
    · intro htargets
      rw [Option.isSome_map, hsome] at htargets
      exact he.rate htargets
    · intro c hc
      cases hc
      exact ⟨rows, _, b', ⟨rfl, rfl, rfl⟩, rfl, hb', hsize, hbatch, hcodes, Scalar.size_zeros _,
        rfl⟩
    · constructor
      · intro _
        rfl
      · intro c hc
        cases hc
        rfl
      · intro c hc
        cases hc
        simp only [parameters, Option.bind_some, Backend.arena, Backend.held, hb'.machine,
          Holding.arena?, Option.map_some]
        rfl
    · intro c hc
      cases hc
      rfl

/-- A coherent engine on some graph and settings that has been compiled. -/
structure Rebuilt (P : Value → Prop) (ns : List Neuron) (ss : List Synapse)
    (settings : TrainingSettings) (e : Engine α) : Prop where
  coherent : e.Coherent P
  mirrored : e.Mirrored
  neurons : e.neurons = ns
  synapses : e.synapses = ss
  training : e.training = settings

/-- An engine that has nothing compiled has nothing to agree on. -/
theorem rebuilt_of_not_compiled {e : Engine α} (hs : e.Stocked P e.neurons e.synapses)
    (he : e.Equipped) (hc : e.compiled = none) :
    e.Rebuilt P e.neurons e.synapses e.training := by
  refine ⟨⟨hs, he, ?_⟩, mirrored_of_not_compiled hc, rfl, rfl, rfl⟩
  intro c hsome
  rw [hc] at hsome
  cases hsome

theorem compile_rebuilds {e : Engine α} (hP : IdClass P) (hs : e.Stocked P e.neurons e.synapses)
    (he : e.Equipped) :
    ∃ r e', compile.outcome e = (r, e') ∧ e'.Rebuilt P e.neurons e.synapses e.training ∧
      ∀ c, r = .ok c → e'.compiled = some c := by
  rcases compile_cases he (hs.nameable hP) with ⟨r, e', hrun, hsame, he', hfits, hmirrored, hok⟩
  refine ⟨r, e', hrun, ⟨⟨?_, he', hfits⟩, hmirrored, hsame.neurons, hsame.synapses,
    hsame.training⟩, hok⟩
  rw [hsame.neurons, hsame.synapses]
  exact hs.of_stores hsame.neuronStore hsame.synapseStore

/-- A graph with known activation tags is compiled if there is room for it. -/
theorem compile_succeeds {rows : Nat} {codes : List Activation} {e : Engine α} (he : e.Equipped)
    (hname : Compiled.nameable e.neurons e.synapses = true)
    (hbatch : e.training.microBatchSize = .whole rows)
    (hroom : Machine.hasRoom e.memory e.neurons.length rows = true)
    (hcodes : (e.neurons.map Neuron.activation).mapM Activation.ofValue = .ok codes) :
    compile.succeeds e = true := by
  rcases he.backend with ⟨b, hb, hequipped⟩
  rw [memory_eq hb] at hroom
  have hload := outcome_load_of_hasRoom (c := Compiled.flatten e.neurons e.synapses) hb hequipped
    hbatch hroom (Compiled.size_weights_flatten _ _) (Compiled.size_biases_flatten _ _)
    (List.length_map _) hcodes
  rcases outcome_compile_of_load he hname hbatch hroom hload with ⟨t, b', hcompile, -⟩
  exact succeeds_of_ok (congrArg Prod.fst hcompile)

/-- Reading the stores anew makes an engine coherent, whatever its cache was. -/
theorem refreshAndCompile_rebuilds {ns : List Neuron} {ss : List Synapse} {e : Engine α}
    (hP : IdClass P) (hs : e.Stocked P ns ss) (he : e.Equipped) :
    ∃ r e', refreshAndCompile.outcome e = (r, e') ∧ e'.Rebuilt P ns ss e.training ∧
      ∀ p, r = .ok p → e'.compiled.isSome = true := by
  have hs' : (e.withCache ns ss).Stocked P ns ss := hs.of_stores rfl rfl
  have he' : (e.withCache ns ss).Equipped := ⟨he.backend, he.rate⟩
  rw [refreshAndCompile, outcome_bind_of_ok (outcome_refresh hs), outcome_get_bind,
    he'.hasReadyBackend, if_pos rfl]
  rcases compile_rebuilds hP hs' he' with ⟨r, e', hrun, hrebuilt, hok⟩
  cases r with
  | error f =>
      rw [outcome_bind_of_error hrun]
      refine ⟨.error f, e', rfl, hrebuilt, ?_⟩
      intro p hp
      cases hp
  | ok c =>
      rw [outcome_bind_of_ok hrun]
      refine ⟨_, e', outcome_projection hP hrebuilt.coherent.stocked, hrebuilt, ?_⟩
      intro p _
      rw [hok c rfl]
      rfl

theorem refreshAndCompile_succeeds {ns : List Neuron} {ss : List Synapse} {rows : Nat}
    {codes : List Activation} {e : Engine α} (hP : IdClass P) (hs : e.Stocked P ns ss)
    (he : e.Equipped) (hbatch : e.training.microBatchSize = .whole rows)
    (hroom : Machine.hasRoom e.memory ns.length rows = true)
    (hcodes : (ns.map Neuron.activation).mapM Activation.ofValue = .ok codes) :
    refreshAndCompile.succeeds e = true := by
  have hs' : (e.withCache ns ss).Stocked P ns ss := hs.of_stores rfl rfl
  have he' : (e.withCache ns ss).Equipped := ⟨he.backend, he.rate⟩
  rcases outcome_of_succeeds (compile_succeeds he' (hs'.nameable hP) hbatch hroom hcodes) with
    ⟨c, hcompile⟩
  rcases compile_rebuilds hP hs' he' with ⟨r, e', hrun, hrebuilt, -⟩
  rw [hcompile] at hrun
  cases hrun
  have hprojection := outcome_projection hP hrebuilt.coherent.stocked
  apply succeeds_of_ok (b := Projection.ofGraph _ _)
  rw [refreshAndCompile, outcome_bind_of_ok (outcome_refresh hs), outcome_get_bind,
    he'.hasReadyBackend, if_pos rfl, outcome_bind_of_ok hcompile, hprojection]

end Engine
end Plexus
