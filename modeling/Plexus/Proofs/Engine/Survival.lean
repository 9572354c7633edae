import Plexus.Proofs.Engine.GraphBuilt

/-!
# Parameters that survive a change

A change of the graph gives neurons other indices and compiles the graph anew, so the parameters
that the backend runs have to come back through the stores.  An engine that is marked as trained
writes them there first; one that is not marked has them there already.  Both kinds of backend
lead to the same picture: a graph that carries the parameters is changed and compiled.
-/

namespace Plexus
namespace Engine

open Attempt
open Compiled (Indexes)
open Scalar (Like Lossless)
open Value (IdClass IsText)

variable {α : Type} {P : Value → Prop}

/-!
## Initialised engines
-/

/-- An engine on keyed stores that is about to be initialised, on whichever backend. -/
structure Openable (P : Value → Prop) (e : Engine α) : Prop where
  stored : e.Stored P
  fresh : e.seedIsFresh = true
  rate : e.onDense = true → e.targets.isSome = true → ∃ x, e.rate.toFloat = .ok x
  untrained : e.onDense = false → e.trained = false

theorem openable_of_createOn {host : Host} {settings : EngineSettings}
    {training : TrainingSettings} {ns : List Neuron} {ss : List Synapse}
    {backend : Option (Backend α)} {e : Engine α} (hP : IdClass P) (hns : ∀ n ∈ ns, P n.id)
    (hss : ∀ s ∈ ss, P s.id ∧ P s.source ∧ P s.target)
    (h : createOn host settings training ns ss backend = .ok e) (hfresh : e.seedIsFresh = true) :
    e.Openable P := by
  refine ⟨stored_of_createOn hP hns hss h, hfresh, fun _ htargets => ?_,
    fun _ => (unused_of_createOn h).2⟩
  rw [(unused_of_createOn h).1] at htargets
  cases htargets

theorem Openable.startable {e : Engine α} (h : e.Openable P) (hdense : e.onDense = true) :
    e.Startable P :=
  ⟨h.stored, hdense, h.fresh, h.rate hdense⟩

variable [Scalar α]

/-- What an engine can come to, on whichever backend, once it has been initialised. -/
inductive Attained (P : Value → Prop) : Engine α → Prop
  | opened {e : Engine α} (h : e.Openable P) (hinit : init.succeeds e = true) :
      Attained P (init.after e)
  | step {e : Engine α} (h : Attained P e) (a : Action α) (ha : a.Admissible P e) :
      Attained P (a.perform.after e)

theorem Reachable.attained {e : Engine α} (h : e.Reachable P) : e.Attained P := by
  induction h with
  | opened h hinit =>
      refine .opened ⟨h.stocked, h.fresh, fun _ => h.rate, fun hdense => ?_⟩ hinit
      rw [h.dense] at hdense
      cases hdense
  | step _ a ha ih => exact ih.step a ha

omit [Scalar α] in
/-- A backend that is not dense has no buffers when it has been set up. -/
theorem unbuffered_of_equip {e e' : Engine α} (h : e.onDense = false)
    (hequip : equip.outcome e = (.ok (), e')) : e'.Unbuffered := by
  rcases equip_eq_ok hequip with ⟨b, b', hacquire, hstands, hready, rfl⟩
  have hsettings : b.settings = none := by
    rw [← Option.not_isSome_iff_eq_none, Bool.not_eq_true, ← h]
    unfold onDense
    rw [acquireBackend, outcome_get_bind] at hacquire
    cases hb : e.backend with
    | some b₀ =>
        rw [hb] at hacquire
        have hsame : e = { e with backend := some b } := congrArg Prod.snd hacquire
        have hbackend : e.backend = some b := congrArg Engine.backend hsame
        rw [hb] at hbackend
        cases hbackend
        rfl
    | none =>
        rw [hb] at hacquire
        rcases outcome_bind_eq_ok hacquire with ⟨b₀, t, hselect, hset⟩
        have hbackend : some b₀ = some b := congrArg (fun p => p.2.backend) hset
        cases hbackend
        rw [(outcome_of_eq_ok hselect).1]
  refine ⟨b', rfl, hready, ?_⟩
  rw [hstands.settings, b.settings_configure, hsettings, Option.map_none]

/-- An initialised engine has a dense backend and is coherent, or it runs an operation graph. -/
theorem Attained.reachable_or_graphBuilt [Lossless α] {e : Engine α} (h : e.Attained IsText) :
    e.Reachable IsText ∨ e.GraphBuilt := by
  induction h with
  | @opened e h hinit =>
      cases hdense : e.onDense with
      | true => exact Or.inl (.opened (h.startable hdense) hinit)
      | false =>
          apply Or.inr
          rcases outcome_of_succeeds hinit with ⟨p, hrun⟩
          rcases outcome_bind_eq_ok hrun with ⟨_, t, hequip, -⟩
          have hsame := equipping_undisturbed.equip e
          have huntrained := moving_untrained.equip e (h.untrained hdense)
          rw [after_of_outcome hequip] at hsame huntrained
          exact graphBuilt_of_equip hequip (hsame.stored h.stored)
            (hsame.seedIsFresh.trans h.fresh) (unbuffered_of_equip hdense hequip) huntrained
  | step _ a ha ih =>
      rcases ih with ih | ih
      · exact Or.inl (ih.step a ha)
      · exact Or.inr (a.graphBuilt_perform ha ih)

/-!
## A graph that carries parameters is changed and compiled
-/

/--
How parameters get through a change.  The backend of an engine runs those of its compiled graph;
`e₁` has them written back, its graph is changed as far as `writes` says, and `e'` has the result
compiled.
-/
structure Handover (writes : Synapse → Bool) (c : Compiled α) (weights biases : Array α)
    (e e₁ e' : Engine α) : Prop extends Indexes e.neurons c where
  stocked : e.Stocked IsText e.neurons e.synapses
  compiled : e.compiled = some c
  answer : e.readParameters? = some (weights, biases)
  savedIds : e₁.neurons.map Neuron.id = e.neurons.map Neuron.id
  eq_of_untrained : e.trained = false → e₁ = e
  carries : e₁.Carries .fp32 weights biases
  carriesEach : e.trained = true → e₁.CarriesEach weights
  keeps : Keeps writes e₁.neurons e₁.synapses e'.neurons e'.synapses
  restocked : e'.Stocked IsText e'.neurons e'.synapses
  recompiled : e'.compiled = some (Compiled.flatten e'.neurons e'.synapses)

namespace Handover

variable {writes : Synapse → Bool} {c : Compiled α} {weights biases : Array α}
  {e e₁ e' : Engine α}

/-- A neuron that was there before has the index it had, in the graph that was written back. -/
theorem getElem?_place (h : Handover writes c weights biases e e₁ e') {n : Neuron}
    (hn : n ∈ e'.neurons) (hknows : e.knows n.id = true) :
    e₁.neurons[c.place n.id]? = some n := by
  rcases exists_of_knows h.stocked hknows with ⟨m, hm, hid⟩
  have hmem : n.id ∈ e₁.neurons.map Neuron.id := by
    rw [h.savedIds, ← hid]
    exact List.mem_map_of_mem hm
  rcases List.mem_map.mp hmem with ⟨m₁, hm₁, hid₁⟩
  have hdistinct : Distinct IsText e₁.neurons := h.stocked.neurons.of_map_id h.savedIds
  exact ((h.of_ids h.savedIds).place Value.idClass_isText hdistinct
    (h.keeps.neurons n hn m₁ hm₁ hid₁)).2

/-- In the graph that is compiled in the end, a neuron is at its index there. -/
theorem getElem?_place' (h : Handover writes c weights biases e e₁ e') {n : Neuron}
    (hn : n ∈ e'.neurons) :
    e'.neurons[(Compiled.flatten e'.neurons e'.synapses : Compiled α).place n.id]? = some n :=
  ((Compiled.outlines_flatten e'.neurons e'.synapses).toIndexes.place Value.idClass_isText
    h.restocked.neurons hn).2

theorem bias (h : Handover writes c weights biases e e₁ e') {id : Value}
    (hold : e.knows id = true) (hnew : e'.knows id = true) :
    Alike (e'.compiledBias id) (e.runningBias id) := by
  rcases exists_of_knows h.restocked hnew with ⟨n, hn, rfl⟩
  refine ⟨Scalar.ofFloat n.bias, Scalar.cell biases (c.place n.id), ?_, ?_,
    h.carries.bias _ _ (h.getElem?_place hn hold)⟩
  · rw [compiledBias, h.recompiled, Option.map_some,
      Compiled.cell_biases_flatten e'.synapses (h.getElem?_place' hn)]
  · rw [runningBias, h.compiled, h.answer]

/-- The last synapse between two neurons, if none between them was written, has their weight. -/
theorem like_weight (h : Handover writes c weights biases e e₁ e') {i j : Nat} {u v : Neuron}
    {s : Synapse} (hu : e₁.neurons[i]? = some u) (hv : e₁.neurons[j]? = some v)
    (hs : Synapse.lastJoining e'.synapses u.id v.id = some s)
    (hunwritten : ∀ s ∈ e'.synapses, s.joins u.id v.id = true → writes s = false)
    (hlast : e.trained = true ∨
      ∃ t ∈ e'.synapses, Synapse.lastJoining e.synapses u.id v.id = some t) :
    Like (Scalar.ofFloat s.weight) (Scalar.cell weights (j * e₁.neurons.length + i)) := by
  cases htrained : e.trained with
  | true =>
      -- Each synapse between the two neurons has been given the weight of their cell.
      rcases Synapse.mem_of_lastJoining hs with ⟨hmem, hjoins⟩
      have hfiltered : s ∈ e'.synapses.filter fun s => !writes s := by
        rw [List.mem_filter, hunwritten s hmem hjoins]
        exact ⟨hmem, rfl⟩
      exact h.carriesEach htrained _ _ u v s hu hv (h.keeps.synapses.subset hfiltered) hjoins
  | false =>
      -- Only the last synapse between the two neurons is known to have that weight.
      rcases hlast with hmark | ⟨t, ht, hlast⟩
      · rw [htrained] at hmark
        cases hmark
      · have hsub := h.keeps.synapses
        rw [h.eq_of_untrained htrained] at hsub
        have hnodup := h.stocked.synapses.nodup Value.idClass_isText
        rw [Synapse.lastJoining_of_keeps hsub hnodup hunwritten ht hlast] at hs
        cases hs
        refine h.carries.weight _ _ u v _ hu hv ?_
        rw [h.eq_of_untrained htrained]
        exact hlast

theorem weight (h : Handover writes c weights biases e e₁ e') {uId vId : Value}
    (huOld : e.knows uId = true) (huNew : e'.knows uId = true) (hvOld : e.knows vId = true)
    (hvNew : e'.knows vId = true) (hlinked : e'.links uId vId = true)
    (hunwritten : (e'.synapses.any fun s => s.joins uId vId && writes s) = false)
    (hlast : e.trained = true ∨
      ∃ t ∈ e'.synapses, Synapse.lastJoining e.synapses uId vId = some t) :
    Alike (e'.compiledWeight uId vId) (e.runningWeight uId vId) := by
  rcases exists_of_knows h.restocked huNew with ⟨u, hu, rfl⟩
  rcases exists_of_knows h.restocked hvNew with ⟨v, hv, rfl⟩
  rcases List.any_eq_true.mp hlinked with ⟨d, hd, hdJoins⟩
  rcases Synapse.lastJoining_of_mem hd hdJoins with ⟨s, hs⟩
  have hdistinct := h.restocked.neurons
  have hcompiled : e'.compiledWeight u.id v.id = some (Scalar.ofFloat s.weight) := by
    rw [compiledWeight, h.recompiled, Option.map_some]
    have hcell := Compiled.cell_weights_flatten (α := α) hdistinct.apart hdistinct.named
      h.restocked.ends (h.getElem?_place' hu) (h.getElem?_place' hv)
    rw [hs] at hcell
    exact congrArg some hcell
  have hrunning : e.runningWeight u.id v.id =
      some (Scalar.cell weights (c.place v.id * c.size + c.place u.id)) := by
    rw [runningWeight, h.compiled, h.answer]
  have hsize : e₁.neurons.length = c.size := (h.of_ids h.savedIds).size.symm
  have hleft : ∀ s ∈ e'.synapses, s.joins u.id v.id = true → writes s = false := by
    intro s hs hjoins
    have hnone := List.any_eq_false.mp hunwritten s hs
    rw [hjoins, Bool.true_and] at hnone
    exact Bool.not_eq_true _ ▸ hnone
  refine ⟨_, _, hcompiled, hrunning, ?_⟩
  rw [← hsize]
  exact h.like_weight (h.getElem?_place hu huOld) (h.getElem?_place hv hvOld) hs hleft hlast

end Handover

/-!
## Changes
-/

/-- Settings that are taken over have the cache compiled, if a graph was compiled before. -/
theorem GraphBuilt.recompiled_setTraining {e e' : Engine α} {settings : TrainingSettings}
    (he : e.GraphBuilt) (hc : e.compiled.isSome = true)
    (hrun : (setTraining settings).outcome e = (.ok (), e')) :
    Keeps (fun _ => false) e.neurons e.synapses e'.neurons e'.synapses ∧
      e'.compiled = some (Compiled.flatten e'.neurons e'.synapses) := by
  have hsome : (e.retrained settings).compiled.isSome = true := hc
  rw [setTraining, outcome_bind_of_ok (outcome_syncIfTrained_of_untrained he.untrained), retrain,
    outcome_modify_bind, outcome_get_bind, if_pos hsome] at hrun
  rcases outcome_bind_eq_ok hrun with ⟨c, t, hcompile, hpure⟩
  cases hpure
  have hsame := compiling_undisturbed.compile (e.retrained settings)
  rw [after_of_outcome hcompile] at hsame
  rw [hsame.neurons, hsame.synapses]
  exact ⟨keeps_of_sublist (List.Sublist.refl _) (List.Sublist.refl _), (compile_eq_ok hcompile).2⟩

/-- A change that succeeds has compiled what it leaves of the graph. -/
theorem GraphBuilt.recompiled_amend {writes : Synapse → Bool}
    {step : Attempt (Engine α) Projection} {e e' : Engine α} {p : Projection}
    (he : e.GraphBuilt) (hamends : Amends IsText writes step)
    (hrun : (syncIfTrained >>= fun _ => step).outcome e = (.ok p, e')) :
    Keeps writes e.neurons e.synapses e'.neurons e'.synapses ∧
      e'.compiled = some (Compiled.flatten e'.neurons e'.synapses) := by
  have he' := hamends.graphBuilt e he
  rw [after_of_outcome hrun] at he'
  rw [outcome_bind_of_ok (outcome_syncIfTrained_of_untrained he.untrained)] at hrun
  rcases hamends e true _ _ (tracked_of_cached he.stocked rfl rfl) with
    ⟨f, hfails⟩ | ⟨ns, ss, _, _, hs, hkeeps, hrefresh⟩
  · rw [hfails] at hrun
    cases hrun
  · rw [hrefresh] at hrun
    have hsame := undisturbed_refreshAndCompile hs.getAll.1 hs.getAll.2
    rw [after_of_outcome hrun] at hsame
    refine ⟨?_, (refreshAndCompile_eq_ok he'.unbuffered.hasReadyBackend hrun).2.2.1⟩
    rw [hsame.neurons, hsame.synapses]
    exact hkeeps

variable [Lossless α]

/-- On an operation graph the parameters are in the stores all along. -/
theorem GraphBuilt.handover {e : Engine α} {a : Action α} (he : e.GraphBuilt)
    (hc : e.compiled.isSome = true) (hmutates : a.mutates = true) (ha : a.Admissible IsText e)
    (hok : a.perform.succeeds e = true) :
    ∃ c weights biases, Handover a.writes c weights biases e e (a.perform.after e) := by
  rcases Option.isSome_iff_exists.mp hc with ⟨c, hcompiled⟩
  have hruns := he.runs c hcompiled
  rcases hruns.carries with ⟨weights, biases, hanswer, hcarries⟩
  have hchanged : Keeps a.writes e.neurons e.synapses (a.perform.after e).neurons
      (a.perform.after e).synapses ∧ (a.perform.after e).compiled =
        some (Compiled.flatten (a.perform.after e).neurons (a.perform.after e).synapses) := by
    rcases a.amends Value.idClass_isText ha hmutates with ⟨settings, rfl⟩ | ⟨step, hperform, h⟩
    · rcases outcome_of_succeeds hok with ⟨_, hrun⟩
      exact he.recompiled_setTraining hc hrun
    · rw [hperform, succeeds_void] at hok
      rcases outcome_of_succeeds hok with ⟨p, hrun⟩
      rw [hperform, after_void]
      exact he.recompiled_amend h hrun
  refine ⟨c, weights, biases, hruns.toIndexes, he.stocked, hcompiled, hanswer, rfl, fun _ => rfl,
    hcarries, fun htrained => ?_, hchanged.1, (a.graphBuilt_perform ha he).stocked, hchanged.2⟩
  rw [he.untrained] at htrained
  cases htrained

/-- After writing back, or in single precision, an engine carries the parameters it runs. -/
theorem Saved.carries {c : Compiled α} {rows : Nat} {a : Arena α} {b : Backend α}
    {e e₁ : Engine α} (hsaved : e.Saved e₁) (he : e.Coherent IsText) (hretains : e.Retains)
    (hc : e.compiled = some c) (h : e.Fits c rows a b)
    (hkept : e.trained = true ∨ e.training.basePrecision = .fp32) :
    e₁.Carries .fp32 a.weights a.biases ∧ (e.trained = true → e₁.CarriesEach a.weights) := by
  rcases hsaved with ⟨huntrained, rfl⟩ | ⟨-, d, weights, biases, hd, hparameters, rfl⟩
  · constructor
    · rcases hkept with htrained | hprecision
      · rw [huntrained] at htrained
        cases htrained
      · have hcarries := hretains huntrained c _ _ hc h.parameters_eq
        rw [hprecision] at hcarries
        exact hcarries
    · intro htrained
      rw [huntrained] at htrained
      cases htrained
  · rw [hc] at hd
    rw [h.parameters_eq] at hparameters
    cases hd
    cases hparameters
    exact ⟨carries_synced he.stocked h.toIndexes _ _,
      fun _ => carriesEach_synced he.stocked h.toIndexes _ _⟩

/-- On a dense backend trained parameters are written back before the graph is changed. -/
theorem Reachable.handover [Scalar.Storable α] {e : Engine α} {a : Action α}
    (h : e.Reachable IsText) (hc : e.compiled.isSome = true)
    (hkept : e.trained = true ∨ e.training.basePrecision = .fp32) (hmutates : a.mutates = true)
    (ha : a.Admissible IsText e) (hok : a.perform.succeeds e = true) :
    ∃ c weights biases e₁, Handover a.writes c weights biases e e₁ (a.perform.after e) := by
  have hP := Value.idClass_isText
  have he := h.coherent hP
  rcases he.exists_fits hc with ⟨c, rows, arena, b, hcompiled, hfits⟩
  rcases (a.changes hP he ha hmutates).rebuilt hok with
    ⟨e₁, ns, ss, settings, hsaved, hkeeps, hrebuilt, hsome⟩
  have hcarries := hsaved.carries he h.retains hcompiled hfits hkept
  rcases Option.isSome_iff_exists.mp (hsome hc) with ⟨d, hd⟩
  have hstocked := hrebuilt.coherent.stocked
  rw [← hrebuilt.neurons, ← hrebuilt.synapses] at hkeeps
  refine ⟨c, arena.weights, arena.biases, e₁, hfits.toIndexes, he.stocked, hcompiled,
    hfits.readParameters?_eq, hsaved.ids, fun huntrained => hsaved.eq_of_untrained huntrained,
    hcarries.1, hcarries.2, hkeeps, hstocked, ?_⟩
  rw [hd, hrebuilt.mirrored.graph d hd]

/--
A change that succeeds keeps the parameters of an engine that is marked as trained or works in
single precision.  Each neuron that is there before and after keeps its bias.  Two neurons
that are linked before and after keep the weight between them unless the change has added or
rewritten a synapse from the one to the other; without the mark, the synapse that was the
last from the one to the other must still be there.
-/
theorem mutation_retains {e : Engine Float32} {a : Action Float32}
    (h : e.Attained IsText) (hc : e.compiled.isSome = true)
    (hkept : e.trained = true ∨ e.training.basePrecision = .fp32) (hmutates : a.mutates = true)
    (ha : a.Admissible IsText e) (hok : a.perform.succeeds e = true) :
    (∀ id, e.knows id = true → (a.perform.after e).knows id = true →
      Alike ((a.perform.after e).compiledBias id) (e.runningBias id)) ∧
    ∀ u v, e.knows u = true → (a.perform.after e).knows u = true →
      e.knows v = true → (a.perform.after e).knows v = true →
      e.links u v = true → (a.perform.after e).links u v = true →
      relinks a (a.perform.after e) u v = false →
      (e.trained = true ∨
        ∃ s ∈ (a.perform.after e).synapses, Synapse.lastJoining e.synapses u v = some s) →
      Alike ((a.perform.after e).compiledWeight u v) (e.runningWeight u v) := by
  have hhandover : ∃ c weights biases e₁,
      Handover a.writes c weights biases e e₁ (a.perform.after e) := by
    rcases h.reachable_or_graphBuilt with hreachable | hbuilt
    · exact hreachable.handover hc hkept hmutates ha hok
    · rcases hbuilt.handover hc hmutates ha hok with ⟨c, weights, biases, hover⟩
      exact ⟨c, weights, biases, e, hover⟩
  rcases hhandover with ⟨c, weights, biases, e₁, hover⟩
  constructor
  · exact fun id hold hnew => hover.bias hold hnew
  · exact fun u v huOld huNew hvOld hvNew _ hlinked hunwritten hlast =>
      hover.weight huOld huNew hvOld hvNew hlinked hunwritten hlast

/-- The engine with training prepared, after a training tick on an input. -/
def trainedParallel : Engine Float32 :=
  (Action.trainTick (some (.ok #[1.0, 0.0])) none none).perform.after
    ((Action.prepareTraining (.ok #[0.0, 1.0]) none).perform.after (init.after parallel))

theorem reachable_trainedParallel : trainedParallel.Reachable IsText :=
  Reachable.step (.step reachable_parallel (.prepareTraining (.ok #[0.0, 1.0]) none) trivial)
    (.trainTick (some (.ok #[1.0, 0.0])) none none) trivial

/-- The same graph on a backend that builds an operation graph of it. -/
def charted : Engine Float32 :=
  { parallel with settings := { EngineSettings.inference with device := .text "cpu" } }

theorem openable_charted : charted.Openable IsText := by
  have hcreate : createOn {} { EngineSettings.inference with device := .text "cpu" } .default
      [linearNeuron "a" 0.0, linearNeuron "b" 0.0]
      [⟨.text "s", .text "a", .text "b", 1.0⟩, ⟨.text "t", .text "a", .text "b", 2.0⟩] none =
        .ok charted := rfl
  exact openable_of_createOn Value.idClass_isText text_parallel.1 text_parallel.2 hcreate rfl

theorem attained_charted : (init.after charted).Attained IsText :=
  .opened openable_charted (by decide +kernel)

/-- Trained parameters outlast a new neuron; those of an operation graph outlast a deletion. -/
theorem mutation_retains_parallel :
    (trainedParallel.trained = true ∧
      (Action.addNeuron (linearNeuron "c" 0.0)).perform.succeeds trainedParallel = true ∧
      Alike (((Action.addNeuron (linearNeuron "c" 0.0)).perform.after
          trainedParallel).compiledBias (.text "b"))
        (trainedParallel.runningBias (.text "b")) ∧
      Alike (((Action.addNeuron (linearNeuron "c" 0.0)).perform.after
          trainedParallel).compiledWeight (.text "a") (.text "b"))
        (trainedParallel.runningWeight (.text "a") (.text "b"))) ∧
    (init.after charted).canTrain = false ∧
      (Action.deleteSynapse (.text "s")).perform.succeeds (init.after charted) = true ∧
      Alike (((Action.deleteSynapse (.text "s")).perform.after
          (init.after charted)).compiledWeight (.text "a") (.text "b"))
        ((init.after charted).runningWeight (.text "a") (.text "b")) := by
  constructor
  · have htrained : trainedParallel.trained = true := by decide +kernel
    have hok : (Action.addNeuron (linearNeuron "c" 0.0)).perform.succeeds trainedParallel =
        true := by decide +kernel
    have hadmissible : (Action.addNeuron (linearNeuron "c" 0.0)).Admissible IsText
        trainedParallel := ⟨"c", rfl⟩
    rcases mutation_retains reachable_trainedParallel.attained (by decide +kernel)
      (Or.inl htrained) rfl hadmissible hok with ⟨hbias, hweight⟩
    refine ⟨htrained, hok, hbias _ (by decide +kernel) (by decide +kernel), ?_⟩
    exact hweight _ _ (by decide +kernel) (by decide +kernel) (by decide +kernel)
      (by decide +kernel) (by decide +kernel) (by decide +kernel) (by decide +kernel)
      (Or.inl htrained)
  · have hok : (Action.deleteSynapse (.text "s")).perform.succeeds (init.after charted) = true := by
      decide +kernel
    have hweight := (mutation_retains (a := .deleteSynapse (.text "s")) attained_charted
      (by decide +kernel) (Or.inr (by decide +kernel)) rfl trivial hok).2
    have hlast : ∃ t ∈ ((Action.deleteSynapse (.text "s")).perform.after
        (init.after charted)).synapses,
        Synapse.lastJoining (init.after charted).synapses (.text "a") (.text "b") = some t :=
      ⟨⟨.text "t", .text "a", .text "b", 2.0⟩, List.mem_singleton.mpr rfl, rfl⟩
    refine ⟨by decide +kernel, hok, ?_⟩
    exact hweight _ _ (by decide +kernel) (by decide +kernel) (by decide +kernel)
      (by decide +kernel) (by decide +kernel) (by decide +kernel) (by decide +kernel)
      (Or.inr hlast)

/--
Without the mark, deleting the last of several synapses from one neuron to another brings the
weight of an earlier one to light: the condition on the last synapse cannot be left out.
-/
theorem deletion_exposes_earlier_weight :
    ¬∀ (e : Engine Float32) (a : Action Float32), e.Attained IsText →
      e.compiled.isSome = true → (e.trained = true ∨ e.training.basePrecision = .fp32) →
      a.mutates = true → a.Admissible IsText e → a.perform.succeeds e = true →
      ∀ u v, e.knows u = true → (a.perform.after e).knows u = true →
        e.knows v = true → (a.perform.after e).knows v = true →
        e.links u v = true → (a.perform.after e).links u v = true →
        relinks a (a.perform.after e) u v = false →
        Alike ((a.perform.after e).compiledWeight u v) (e.runningWeight u v) := by
  intro h
  have halike := h (init.after parallel) (.deleteSynapse (.text "t")) reachable_parallel.attained
    (by decide +kernel) (Or.inr (by decide +kernel)) rfl trivial (by decide +kernel)
    (.text "a") (.text "b") (by decide +kernel) (by decide +kernel) (by decide +kernel)
    (by decide +kernel) (by decide +kernel) (by decide +kernel) (by decide +kernel)
  have hcompiled : ((Action.deleteSynapse (.text "t")).perform.after
      (init.after parallel)).compiledWeight (.text "a") (.text "b") = some 1.0 := by
    decide +kernel
  have hrunning : (init.after parallel).runningWeight (.text "a") (.text "b") = some 2.0 := by
    decide +kernel
  rcases halike with ⟨x, y, hx, hy, hlike⟩
  rw [hcompiled] at hx
  rw [hrunning] at hy
  cases hx
  cases hy
  rcases hlike with hsame | ⟨hnan, -⟩
  · exact absurd hsame (by decide +kernel)
  · exact absurd hnan (by decide +kernel)

end Engine
end Plexus
