import Plexus.Numeric.Single
import Plexus.Proofs.Backend.Forward
import Plexus.Proofs.Engine.Action

/-!
# Reachable engines

An engine on keyed stores and a dense backend is reachable once it has been initialised, and
stays so whatever is asked of it after that.  Reachable engines are coherent.
-/

namespace Plexus
namespace Engine

open Attempt
open Value (IdClass)

variable {α : Type} {P : Value → Prop}

/-- An engine on keyed stores that is about to be initialised on a dense backend. -/
structure Startable (P : Value → Prop) (e : Engine α) : Prop where
  stocked : ∃ ns ss, e.Stocked P ns ss
  dense : e.onDense = true
  fresh : e.seedIsFresh = true
  rate : e.targets.isSome = true → ∃ x, e.rate.toFloat = .ok x

/-- What an engine is created with, on stores that some entries have been put into. -/
def createOn (host : Host) (settings : EngineSettings) (training : TrainingSettings)
    (ns : List Neuron) (ss : List Synapse) (backend : Option (Backend α)) :
    Except Fault (Engine α) := do
  let neuronStore ← KeyedStore.filled ns
  let synapseStore ← KeyedStore.filled ss
  return create host settings training (.keyed neuronStore) (.keyed synapseStore) backend

theorem stored_of_createOn {host : Host} {settings : EngineSettings}
    {training : TrainingSettings} {ns : List Neuron} {ss : List Synapse}
    {backend : Option (Backend α)} {e : Engine α} (hP : IdClass P) (hns : ∀ n ∈ ns, P n.id)
    (hss : ∀ s ∈ ss, P s.id ∧ P s.source ∧ P s.target)
    (h : createOn host settings training ns ss backend = .ok e) :
    e.Stored P := by
  rcases bind_eq_ok h with ⟨neuronStore, hneurons, h⟩
  rcases bind_eq_ok h with ⟨synapseStore, hsynapses, h⟩
  rcases KeyedStore.filled_eq_ok hP hns hneurons with ⟨rfl, hns'⟩
  rcases KeyedStore.filled_eq_ok hP (fun s hs => (hss s hs).1) hsynapses with ⟨rfl, hss'⟩
  cases h
  exact ⟨ns, ss, rfl, rfl, hns', hss', fun s hs => (hss s hs).2⟩

/-- An engine that has just been created has no targets and is not marked as trained. -/
theorem unused_of_createOn {host : Host} {settings : EngineSettings}
    {training : TrainingSettings} {ns : List Neuron} {ss : List Synapse}
    {backend : Option (Backend α)} {e : Engine α}
    (h : createOn host settings training ns ss backend = .ok e) :
    e.targets = none ∧ e.trained = false := by
  rcases bind_eq_ok h with ⟨neuronStore, -, h⟩
  rcases bind_eq_ok h with ⟨synapseStore, -, h⟩
  cases h
  exact ⟨rfl, rfl⟩

theorem startable_of_createOn {host : Host} {settings : EngineSettings}
    {training : TrainingSettings} {ns : List Neuron} {ss : List Synapse}
    {backend : Option (Backend α)} {e : Engine α} (hP : IdClass P) (hns : ∀ n ∈ ns, P n.id)
    (hss : ∀ s ∈ ss, P s.id ∧ P s.source ∧ P s.target)
    (h : createOn host settings training ns ss backend = .ok e) (hdense : e.onDense = true)
    (hfresh : e.seedIsFresh = true) :
    e.Startable P := by
  refine ⟨stored_of_createOn hP hns hss h, hdense, hfresh, fun htargets => ?_⟩
  rw [(unused_of_createOn h).1] at htargets
  cases htargets

/-!
## What a compiled engine agrees on
-/

/-- A compiled graph, the cache, the backend and the buffers of an engine agree. -/
structure Agrees (e : Engine α) (c : Compiled α) (b : Backend α) : Prop where
  backend : e.backend = some b
  stage : .compiled ≤ b.stage
  backendSize : b.size = c.size
  size : c.size = e.neurons.length
  ids : c.ids = e.neurons.map Neuron.id
  batch : b.givenBatch = e.training.microBatchSize
  staged : e.staged.size = c.size * e.batch
  untargeted : e.targets = none ↔ b.stage ≠ .trainable
  targeted : ∀ ts, e.targets = some ts →
    b.held.training?.map TrainingBuffers.targets = some ts ∧ ts.size = c.size * e.batch

theorem Fits.agrees {c : Compiled α} {rows : Nat} {a : Arena α} {b : Backend α} {e : Engine α}
    (h : e.Fits c rows a b) :
    e.Agrees c b where
  backend := h.backend
  stage := h.holds.compiled
  backendSize := h.backendSize
  size := h.size
  ids := h.ids
  batch := h.holds.batch.trans h.batch.symm
  staged := by
    rw [h.batch_eq]
    exact h.staged
  untargeted := by
    rw [h.targets, h.holds.stage]
    cases a.training with
    | none =>
        constructor
        · intro _
          exact (by decide : Stage.compiled ≠ Stage.trainable)
        · intro _
          rfl
    | some t =>
        constructor
        · intro hnone
          cases hnone
        · intro hstage
          exact absurd rfl hstage
  targeted := by
    intro ts hts
    rw [h.targets] at hts
    constructor
    · rw [Backend.held, h.holds.machine]
      exact hts
    · rcases Option.map_eq_some_iff.mp hts with ⟨t, ht, rfl⟩
      rw [h.batch_eq, ← h.backendSize]
      exact h.holds.targets t ht

/-!
## Reachable engines
-/

variable [Scalar α]

/-- Initialising an engine compiles the graph that it has read or made up. -/
theorem Startable.rebuilt {e : Engine α} (hP : IdClass P) (h : e.Startable P)
    (hinit : init.succeeds e = true) :
    ∃ ns ss, (init.after e).Rebuilt P ns ss e.training ∧
      (init.after e).compiled.isSome = true := by
  rcases h.stocked with ⟨ns, ss, hs⟩
  rcases equip_cases h.dense with ⟨f, e', hequip⟩ | ⟨b, hequip, hb⟩
  · have hfails : init.succeeds e = false :=
      not_succeeds_of_error (outcome_bind_of_error hequip _)
    rw [hfails] at hinit
    cases hinit
  · rcases init_of_equip hP hequip hb hs h.rate h.fresh with
      ⟨r, e', ns', ss', hrun, hrebuilt, hok⟩
    rcases outcome_of_succeeds hinit with ⟨p, hp⟩
    rw [after_of_outcome hrun]
    refine ⟨ns', ss', hrebuilt, hok ⟨p, ?_⟩⟩
    rw [hrun] at hp
    exact congrArg Prod.fst hp

/-- What an engine can come to once it has been initialised. -/
inductive Reachable (P : Value → Prop) : Engine α → Prop
  | opened {e : Engine α} (h : e.Startable P) (hinit : init.succeeds e = true) :
      Reachable P (init.after e)
  | step {e : Engine α} (h : Reachable P e) (a : Action α) (ha : a.Admissible P e) :
      Reachable P (a.perform.after e)

theorem Reachable.coherent {e : Engine α} (hP : IdClass P) (h : e.Reachable P) :
    e.Coherent P := by
  induction h with
  | opened h hinit =>
      rcases h.rebuilt hP hinit with ⟨ns, ss, hrebuilt, -⟩
      exact hrebuilt.coherent
  | step h a ha ih => exact a.coherent_after hP ih ha

/-- What every compilation brings about, and what is done after that, short of training, keeps. -/
structure Lasting (P : Value → Prop) (I : Engine α → Prop) : Prop where
  rebuilt : ∀ {ns ss settings} {e : Engine α}, e.Rebuilt P ns ss settings → I e
  closed : ∀ {e : Engine α}, e.compiled = none → I e
  calm : ∀ {e e' : Engine α}, e.Calm e' → I e → I e'
  synced : ∀ {e : Engine α} {c weights biases}, e.Coherent P → e.compiled = some c →
    e.parameters = some (weights, biases) → I e → I (e.synced c weights biases)

/-- What lasts even if the engine is trained. -/
structure Invariant (P : Value → Prop) (I : Engine α → Prop) : Prop extends Lasting P I where
  trained : ∀ {e e' : Engine α}, e.Trained P e' → I e → I e'

theorem Settles.lasting {I : Engine α → Prop} {e e' : Engine α} (hI : Lasting P I)
    (h : e.Settles P e') (he : e.Coherent P) (hold : I e) :
    I e' := by
  cases h with
  | rested hrested => exact hI.calm hrested.calm hold
  | closed _ hclosed => exact hI.closed hclosed
  | saved hsaved _ =>
      rcases hsaved with ⟨-, rfl⟩ | ⟨-, c, weights, biases, hc, hparameters, rfl⟩
      · exact hold
      · exact hI.synced he hc hparameters hold
  | rebuilt ns ss settings hrebuilt => exact hI.rebuilt hrebuilt

/-- Whatever is done with a coherent engine keeps what is kept in this way. -/
theorem Invariant.after {I : Engine α → Prop} {e : Engine α} {a : Action α} (hP : IdClass P)
    (hI : Invariant P I) (he : e.Coherent P) (ha : a.Admissible P e) (hold : I e) :
    I (a.perform.after e) := by
  cases a.advances hP he ha with
  | settled h => exact h.lasting hI.toLasting he hold
  | synced c weights biases hc hparameters heq =>
      rw [heq]
      exact hI.synced he hc hparameters hold
  | trained h => exact hI.trained h hold

theorem Reachable.invariant {I : Engine α → Prop} {e : Engine α} (hP : IdClass P)
    (hI : Invariant P I) (h : e.Reachable P) :
    I e := by
  induction h with
  | opened h hinit =>
      rcases h.rebuilt hP hinit with ⟨ns, ss, hrebuilt, -⟩
      exact hI.rebuilt hrebuilt
  | step h a ha ih => exact hI.after hP (h.coherent hP) ha ih

/-- The network of an engine never has more parameters than its slots have. -/
theorem invariant_bounded : Invariant P (Bounded : Engine α → Prop) where
  rebuilt := by
    intro ns ss settings e hrebuilt c weights biases hc hparameters
    have hcells := hrebuilt.mirrored.parameters c hc
    rw [hparameters] at hcells
    cases hcells
    rw [hrebuilt.mirrored.graph c hc, Array.size_map, Array.size_map,
      Compiled.size_weights_flatten, Compiled.size_biases_flatten]
    exact ⟨Nat.le_refl _, Nat.le_refl _⟩
  closed := by
    intro e hclosed c weights biases hc
    rw [hclosed] at hc
    cases hc
  calm := fun hcalm h => h.of_calm hcalm
  synced := fun _ _ _ h => h
  trained := fun htrained => htrained.bounded

/--
The cache of a reachable engine is what its stores hold.  If a graph is compiled, the engine
agrees with it and a tick on the staged input has an output for every slot of every row; if
not, such a tick is refused for just that reason.
-/
theorem reachable_agrees {e : Engine α} (h : e.Reachable Value.IsKey) :
    e.neuronStore.getAll = .ok e.neurons ∧ e.synapseStore.getAll = .ok e.synapses ∧
      match e.compiled with
      | none => (tick none).outcome e = (.error (.engineNotInitialized "tick"), e)
      | some c => ∃ b, e.Agrees c b ∧
          ∃ out, ((tick none).outcome e).1 = .ok out ∧ out.size = c.size * e.batch := by
  have he := h.coherent Value.idClass_isKey
  refine ⟨he.stocked.getAll.1, he.stocked.getAll.2, ?_⟩
  cases hc : e.compiled with
  | none =>
      show (tick none).outcome e = _
      rw [tick, requireCompiled, outcome_bind, outcome_get_bind, hc]
      rfl
  | some c =>
      rcases he.fits c hc with ⟨rows, a, b, hfits⟩
      have hinputs : (none : Option (Operand α)).getD (.ok e.staged) = .ok e.staged := rfl
      have htick := outcome_tick hc hfits hinputs hfits.staged
      refine ⟨b, hfits.agrees, _, by rw [htick], ?_⟩
      rw [Arena.size_output_forward, hfits.batch_eq]

/-- A neuron that gives what it sums up. -/
def linearNeuron (id : String) (bias : Float) : Neuron :=
  ⟨.text id, .hidden, bias, .text Activation.linear.tag⟩

/-- An engine on empty stores, which makes up its own network. -/
def blank : Engine Float32 :=
  create {} .trainable .default (.keyed .empty) (.keyed .empty) none

/-- The neurons of a graph in which an input leads to an output. -/
def endpoints : List Neuron :=
  [⟨.text "a", .input, 0.0, .text Activation.linear.tag⟩,
    ⟨.text "b", .output, 0.0, .text Activation.linear.tag⟩]

/-- The synapse from the input to the output. -/
def link : Synapse := ⟨.text "s", .text "a", .text "b", 1.0⟩

/-- An engine on stores in which an input leads to an output. -/
def linked : Engine Float32 :=
  create {} .trainable .default (.keyed (.ofList endpoints)) (.keyed (.ofList [link])) none

theorem startable_blank : blank.Startable Value.IsKey := by
  have hcreate : createOn {} .trainable .default [] [] none = .ok blank := rfl
  refine startable_of_createOn Value.idClass_isKey ?_ ?_ hcreate rfl rfl
  · intro n hn
    cases hn
  · intro s hs
    cases hs

theorem startable_linked : linked.Startable Value.IsKey := by
  have hcreate : createOn {} .trainable .default endpoints [link] none = .ok linked := rfl
  have hkey : ∀ text : String, Value.IsKey (.text text) := fun text => ⟨rfl, by simp⟩
  refine startable_of_createOn Value.idClass_isKey ?_ ?_ hcreate rfl rfl
  · simp [endpoints, hkey]
  · simp [link, hkey]

/-- The engine on an input that leads to an output, after a training tick. -/
def drilled : Engine Float32 :=
  (Action.trainTick (some (.ok #[1.0, 0.0])) none none).perform.after
    ((Action.prepareTraining (.ok #[0.0, 1.0]) none).perform.after (init.after linked))

/-- A neuron whose name is taken. -/
def namesake : Neuron := linearNeuron "a" 0.5

/-- The trained engine with larger batches, after it has refused a neuron. -/
def widened : Engine Float32 :=
  (Action.setTraining { TrainingSettings.default with microBatchSize := .whole 3 }).perform.after
    ((Action.addNeuron namesake).perform.after drilled)

theorem reachable_widened : widened.Reachable Value.IsKey := by
  have hinit : init.succeeds linked = true := by decide +kernel
  have hprepared := (Reachable.opened startable_linked hinit).step
    (.prepareTraining (.ok #[0.0, 1.0]) none) trivial
  have hdrilled : drilled.Reachable Value.IsKey :=
    hprepared.step (.trainTick (some (.ok #[1.0, 0.0])) none none) trivial
  have hname : (Action.addNeuron namesake : Action Float32).Admissible Value.IsKey drilled :=
    ⟨rfl, by simp [namesake, linearNeuron]⟩
  exact (hdrilled.step _ hname).step (.setTraining _) trivial

/-- A training tick, a refused neuron and another batch size leave an engine in agreement. -/
theorem reachable_agrees_widened :
    drilled.trained = true ∧ (addNeuron namesake).succeeds drilled = false ∧
      widened.batch = 3 ∧ widened.Reachable Value.IsKey ∧
      widened.neuronStore.getAll = .ok widened.neurons ∧
      widened.synapseStore.getAll = .ok widened.synapses ∧
      ∃ c b ts, widened.compiled = some c ∧ widened.Agrees c b ∧ widened.targets = some ts ∧
        ts.size = c.size * 3 ∧
        ∃ out, ((tick none).outcome widened).1 = .ok out ∧ out.size = c.size * 3 := by
  have hbatch : widened.batch = 3 := by decide +kernel
  have hcompiled : widened.compiled.isSome = true := by decide +kernel
  have htargets : widened.targets.isSome = true := by decide +kernel
  rcases Option.isSome_iff_exists.mp hcompiled with ⟨c, hc⟩
  rcases Option.isSome_iff_exists.mp htargets with ⟨ts, hts⟩
  have hagrees := reachable_agrees reachable_widened
  rw [hc] at hagrees
  rcases hagrees with ⟨hneurons, hsynapses, b, hb, out, hout, hsize⟩
  have htargeted := (hb.targeted ts hts).2
  rw [hbatch] at hsize htargeted
  exact ⟨by decide +kernel, by decide +kernel, hbatch, reachable_widened, hneurons, hsynapses,
    c, b, ts, hc, hb, hts, htargeted, out, hout, hsize⟩

end Engine
end Plexus
