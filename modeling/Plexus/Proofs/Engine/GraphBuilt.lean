import Plexus.Proofs.Backend.OpGraph
import Plexus.Proofs.Engine.Account
import Plexus.Proofs.Engine.Projection

/-!
# Engines on operation graphs

A backend that builds a graph of operations has no buffers, so it refuses every training tick and
an engine on it is never marked as trained.  Once such an engine has been initialised, its backend
runs the parameters of the cached graph, in whatever precision its settings ask for: a graph of
operations does not round them.
-/

namespace Plexus

open Attempt

namespace Backend

variable {α : Type} [Scalar α]

/-- A backend without buffers refuses every training tick. -/
theorem trainTick_refused {b : Backend α} (h : b.settings = none)
    (deltas : Option (Operand α)) :
    ∃ f b', (trainTick deltas).outcome b = (.error f, b') := by
  cases hrun : (trainTick deltas).outcome b with
  | mk r b' =>
      cases r with
      | error f => exact ⟨f, b', rfl⟩
      | ok _ =>
          have hpassed := (stage_of_require (trainable_of_requireTraining hrun).2).2
          rcases outcome_bind_eq_ok hpassed with ⟨given, b₁, hcheck, hdescend⟩
          have hsame := respects_checkDeltas (R := Eq) deltas b
          rw [after_of_outcome hcheck] at hsame
          rw [← hsame, descend, outcome_get_bind] at hdescend
          cases hmachine : b.machine with
          | dense settings held =>
              rw [settings_of_dense hmachine] at h
              cases h
          | graph claims built =>
              rw [hmachine] at hdescend
              cases hdescend

end Backend

namespace Engine

open Compiled (Indexes)
open Scalar (Lossless)
open Value (IsText)

variable {α β : Type}

/-- An engine with a backend that has its device and no buffers. -/
def Unbuffered (e : Engine α) : Prop :=
  ∃ b, e.backend = some b ∧ .ready ≤ b.stage ∧ b.settings = none

theorem Unbuffered.hasReadyBackend {e : Engine α} (h : e.Unbuffered) :
    e.hasReadyBackend = true := by
  rcases h with ⟨b, hb, hready, -⟩
  exact hasReadyBackend_iff.mpr ⟨b, hb, hready⟩

/-!
## Steps on the backend
-/

theorem Unbuffered.of_stands {e e' : Engine α} {b b' : Backend α} (he : e.Unbuffered)
    (hb : e.backend = some b) (h : b.Stands b') (hb' : e'.backend = some b') : e'.Unbuffered := by
  rcases he with ⟨b₀, hb₀, hready, hsettings⟩
  rw [hb] at hb₀
  cases hb₀
  exact ⟨b', hb', h.ready hready, h.settings.trans hsettings⟩

theorem unbuffered_onBackend {step : Attempt (Backend α) β} (h : Respects Backend.Stands step) :
    Respects (Kept Unbuffered) (onBackend step) :=
  respects_onBackend fun _ b hb he => he.of_stands hb (h b) rfl

variable [Scalar α]

theorem unbuffered_load (c : Compiled α) :
    Respects (Kept Unbuffered) (onFault (load c) abandon) := by
  intro e he
  rcases load_or_abandon c e with ⟨b, b', hb, hstands, -, hrun⟩ | ⟨f, backend, hrel, hrun⟩
  · rw [after_of_outcome hrun]
    exact he.of_stands hb hstands rfl
  · rw [after_of_outcome hrun]
    rcases he with ⟨b, hb, hready, hsettings⟩
    rw [hb] at hrel
    cases hrel with
    | some hstands =>
        have hreleased := IsTrans.trans _ _ _ hstands (Backend.stands_release _)
        exact ⟨_, rfl, hreleased.ready hready, hreleased.settings.trans hsettings⟩

theorem moving_unbuffered : Moving (Kept (Unbuffered (α := α))) where
  graph _ _ _ _ _ _ _ h := h
  saved _ h := h
  read := unbuffered_onBackend fun b => (Backend.ticked_readParameters b).stands
  load := unbuffered_load
  compiled _ _ h := h
  installed _ _ h := h
  renewTargets cells := by
    refine respects_get_bind fun e => ?_
    split
    · rw [after, outcome_set_bind]
      exact unbuffered_onBackend (Backend.stands_prepareTraining _ _)
        { e with targets := some (blankTargets cells) }
    · exact refl e
  acquire e b hnone _ he := by
    rcases he with ⟨b₀, hb₀, -⟩
    rw [hnone] at hb₀
    cases hb₀
  boot e _ := unbuffered_onBackend Backend.stands_init e
  retrained e settings he := by
    rcases he with ⟨b, hb, hready, hsettings⟩
    refine ⟨b.configure settings, ?_, ?_, ?_⟩
    · rw [retrained, updateBackend, hb, Option.map_some]
    · rw [b.stage_configure]
      exact hready
    · rw [b.settings_configure, hsettings, Option.map_none]
  staged _ _ h := h
  audience _ _ h := h
  forward inputs := unbuffered_onBackend fun b => (Backend.ticked_forward inputs b).stands
  supervise targets := by
    refine respects_get_bind fun e => ?_
    refine ((unbuffered_onBackend (Backend.stands_prepareTraining _ _)).bind fun _ => ?_) e
    exact (respects_of _).bind fun _ => respects_modify fun _ h => h
  setTargets targets := by
    refine (unbuffered_onBackend fun b => (Backend.ticked_setTargets targets b).stands).bind
      fun _ => ?_
    exact (respects_of _).bind fun _ => respects_modify fun _ h => h

/-- Whatever is asked of an engine but training leaves the mark off. -/
theorem moving_untrained : Moving (Kept fun e : Engine α => e.trained = false) where
  graph _ _ _ _ _ _ _ h := h
  saved _ _ := rfl
  read := respects_onBackend fun _ _ _ h => h
  load c := by
    refine Respects.onFault (respects_get_bind fun e => ?_) (respects_modify fun _ _ => rfl)
    exact respects_onBackend (fun _ _ _ h => h) e
  compiled _ _ h := h
  installed _ _ _ := rfl
  renewTargets cells := by
    refine respects_get_bind fun e => ?_
    split
    · rw [after, outcome_set_bind]
      exact respects_onBackend (R := Kept fun e : Engine α => e.trained = false)
        (fun _ _ _ h => h) { e with targets := some (blankTargets cells) }
    · exact refl e
  acquire _ _ _ _ h := h
  boot e _ := respects_onBackend (R := Kept fun e : Engine α => e.trained = false)
    (fun _ _ _ h => h) e
  retrained _ _ h := h
  staged _ _ h := h
  audience _ _ h := h
  forward _ := respects_onBackend fun _ _ _ h => h
  supervise targets := by
    refine respects_get_bind fun e => ?_
    refine ((respects_onBackend fun _ _ _ h => h).bind fun _ => ?_) e
    exact (respects_of _).bind fun _ => respects_modify fun _ h => h
  setTargets targets := by
    refine (respects_onBackend fun _ _ _ h => h).bind fun _ => ?_
    exact (respects_of _).bind fun _ => respects_modify fun _ h => h

/-!
## What the backend runs
-/

/-- The backend of an engine runs the parameters of the cached graph, which is the compiled one. -/
structure Runs (c : Compiled α) (e : Engine α) : Prop extends Indexes e.neurons c where
  known : ∀ n ∈ e.neurons, ∃ f, Activation.ofValue n.activation = .ok f
  carries : ∃ weights biases, e.readParameters? = some (weights, biases) ∧
    e.Carries .fp32 weights biases

/-- An engine on keyed stores that has been read and has a backend without buffers. -/
structure Seated (e : Engine α) : Prop where
  stocked : e.Stocked IsText e.neurons e.synapses
  unbuffered : e.Unbuffered
  untrained : e.trained = false

/-- A seated engine whose backend runs the parameters of its cache, if anything is compiled. -/
structure GraphBuilt (e : Engine α) : Prop extends Seated e where
  runs : ∀ c, e.compiled = some c → e.Runs c

omit [Scalar α] in
theorem Seated.of_undisturbed {e e' : Engine α} (h : e.Seated) (hsame : e.Undisturbed e')
    (hunbuffered : e'.Unbuffered) (huntrained : e'.trained = false) : e'.Seated := by
  refine ⟨?_, hunbuffered, huntrained⟩
  rw [hsame.neurons, hsame.synapses]
  exact hsame.stocked h.stocked

theorem GraphBuilt.of_quiet {e e' : Engine α} (h : e.GraphBuilt) (hquiet : e.Quiet e')
    (hunbuffered : e'.Unbuffered) : e'.GraphBuilt := by
  refine ⟨h.toSeated.of_undisturbed hquiet.toUndisturbed hunbuffered
    (hquiet.trained.trans h.untrained), fun c hc => ?_⟩
  rw [hquiet.compiled] at hc
  have hruns := h.runs c hc
  rcases hruns.carries with ⟨weights, biases, hread, hcarries⟩
  refine ⟨hruns.of_ids (by rw [hquiet.neurons]), ?_, weights, biases, ?_,
    hcarries.congr hquiet.neurons hquiet.synapses⟩
  · rw [hquiet.neurons]
    exact hruns.known
  · rw [hquiet.answer]
    exact hread

/-- A backend without buffers answers with the parameters of a graph that has been loaded. -/
theorem readParameters?_of_load {c : Compiled α} {codes : List Activation} {e e' : Engine α}
    (he : e.Unbuffered) (hweights : c.weights.size = c.size * c.size)
    (hbiases : c.biases.size = c.size) (hlength : c.activations.length = c.size)
    (hcodes : c.activations.mapM Activation.ofValue = .ok codes)
    (h : (load c).outcome e = (.ok (), e')) : e'.readParameters? = some (c.weights, c.biases) := by
  rcases he with ⟨b, hb, hready, hsettings⟩
  cases hmachine : b.machine with
  | dense settings held =>
      rw [Backend.settings_of_dense hmachine] at hsettings
      cases hsettings
  | graph claims built =>
      rcases load_of_graph hb hmachine hready hweights hbiases hlength hcodes with
        ⟨b', hload, hstage, hbuilt, -⟩
      rw [h] at hload
      cases hload
      have hlate : ¬b'.stage < .compiled := by
        rw [hstage]
        decide
      rw [readParameters?_eq, Option.bind_some, Backend.answer_eq, if_neg hlate, hbuilt,
        Machine.parameters, Option.map_some, OpGraph.weights_build _ _ hweights]
      rfl

/-- Installing a graph does not change what the backend answers. -/
theorem fixes_readParameters?_install (c : Compiled α) :
    Respects (Fixes readParameters?) (install c) := by
  refine Respects.bind (respects_modify fun e => readParameters?_congr rfl) fun _ => ?_
  refine respects_get_bind fun e => ?_
  refine ((respects_of _).bind fun rows => (respects_of _).bind fun cells => ?_) e
  refine Respects.bind (respects_modify fun e => readParameters?_congr rfl) fun _ => ?_
  refine respects_get_bind fun e => ?_
  split
  · rw [after, outcome_set_bind]
    have hquiet := quiet_onBackend
      (Backend.stands_prepareTraining (.ok (blankTargets cells)) e.rate.toFloat)
      (Backend.answer_prepareTraining _ _) { e with targets := some (blankTargets cells) }
    exact hquiet.answer.trans (readParameters?_congr rfl)
  · exact refl e

/-- A graph that is compiled without buffers is run as it is. -/
theorem Seated.readParameters?_of_compile {c : Compiled α} {e : Engine α} (h : e.Seated)
    (hc : (compile.after e).compiled = some c) :
    (compile.after e).readParameters? = some ((Compiled.flatten e.neurons e.synapses).weights,
      (Compiled.flatten e.neurons e.synapses).biases) := by
  have hname := h.stocked.nameable Value.idClass_isText
  rw [after, outcome_compile_of_nameable h.unbuffered.hasReadyBackend hname] at hc ⊢
  cases hload : (load (Compiled.flatten e.neurons e.synapses)).outcome e with
  | mk r t =>
      cases r with
      | error f =>
          rcases outcome_onFault_of_error hload abandon with ⟨f', hfault⟩
          rw [outcome_bind_of_error hfault] at hc
          cases hc
      | ok _ =>
          rcases codes_of_load hload with ⟨codes, hcodes⟩
          have hread := readParameters?_of_load h.unbuffered (Compiled.size_weights_flatten _ _)
            (Compiled.size_biases_flatten _ _) (List.length_map _) hcodes hload
          rw [outcome_bind_of_ok (outcome_onFault_of_ok hload abandon)]
          have hinstall : Respects (Fixes readParameters?)
              (install (Compiled.flatten e.neurons e.synapses) >>= fun _ =>
                (pure (Compiled.flatten e.neurons e.synapses) :
                  Attempt (Engine α) (Compiled α))) :=
            (fixes_readParameters?_install _).bind fun _ => respects_pure _
          exact (hinstall t).trans hread

/-- The graph in a cache carries the parameters that it is compiled to. -/
theorem carries_flatten {e : Engine α} (hs : e.Stocked IsText e.neurons e.synapses) :
    e.Carries .fp32 (Compiled.flatten e.neurons e.synapses : Compiled α).weights
      (Compiled.flatten e.neurons e.synapses : Compiled α).biases where
  bias := by
    intro i n hn
    rw [Compiled.cell_biases_flatten _ hn]
    exact Scalar.Like.refl _
  weight := by
    intro i j u v s hu hv hlast
    rw [Compiled.cell_weights_flatten hs.neurons.apart hs.neurons.named hs.ends hu hv, hlast]
    exact Scalar.Like.refl _

/-!
## Compiling
-/

theorem Seated.compile {e : Engine α} (h : e.Seated) : (compile.after e).GraphBuilt := by
  have hsame := compiling_undisturbed.compile e
  have hseated := h.of_undisturbed hsame (moving_unbuffered.toCompiling.compile e h.unbuffered)
    (moving_untrained.toCompiling.compile e h.untrained)
  refine ⟨hseated, fun c hc => ?_⟩
  have hready := h.unbuffered.hasReadyBackend
  have hname := h.stocked.nameable Value.idClass_isText
  rcases compiled_of_compile hready hname with hflat | ⟨-, hnone⟩
  · have hknown := known_of_compile hready hname (by rw [hc]; rfl)
    have hread := h.readParameters?_of_compile hc
    have hcarries := carries_flatten h.stocked
    rw [hc, Option.some.injEq] at hflat
    refine ⟨?_, ?_, _, _, hread, hcarries.congr hsame.neurons hsame.synapses⟩
    · rw [hflat, hsame.neurons]
      exact (Compiled.outlines_flatten _ e.synapses).toIndexes
    · rw [hsame.neurons]
      exact hknown
  · rw [hc] at hnone
    cases hnone

theorem graphBuilt_refreshAndCompile {e : Engine α} (hstored : e.Stored IsText)
    (hunbuffered : e.Unbuffered) (huntrained : e.trained = false) :
    (refreshAndCompile.after e).GraphBuilt := by
  rcases hstored with ⟨ns, ss, hs⟩
  have hseated : (e.withCache ns ss).Seated := ⟨hs.of_stores rfl rfl, hunbuffered, huntrained⟩
  have hready := hseated.unbuffered.hasReadyBackend
  rw [refreshAndCompile, after, outcome_bind_of_ok (outcome_refresh hs), outcome_get_bind, hready,
    if_pos rfl]
  exact bind_induction (I := GraphBuilt) hseated.compile fun _ t ht =>
    (respects_projection (R := Eq) t) ▸ ht

/-!
## Whatever is done with an engine
-/

/-- Without the mark nothing is written back before a change. -/
theorem Amends.graphBuilt {writes : Synapse → Bool} {step : Attempt (Engine α) Projection}
    (h : Amends IsText writes step) :
    Respects (Kept GraphBuilt) (syncIfTrained >>= fun _ => step) := by
  intro e he
  rw [after, outcome_bind_of_ok (outcome_syncIfTrained_of_untrained he.untrained)]
  rcases h e true _ _ (tracked_of_cached he.stocked rfl rfl) with
    ⟨f, hrun⟩ | ⟨ns, ss, _, _, hs, -, hrun⟩
  · rw [hrun]
    exact he
  · rw [hrun]
    exact graphBuilt_refreshAndCompile ⟨ns, ss, hs⟩ he.unbuffered he.untrained

theorem graphBuilt_setTraining (settings : TrainingSettings) :
    Respects (Kept GraphBuilt) (setTraining (α := α) settings) := by
  intro e he
  have hretrained := he.of_quiet (quiet_retrained e settings)
    (moving_unbuffered.retrained e settings he.unbuffered)
  rw [setTraining, after, outcome_bind_of_ok (outcome_syncIfTrained_of_untrained he.untrained),
    retrain, outcome_modify_bind, outcome_get_bind]
  cases hsome : (e.retrained settings).compiled.isSome with
  | true =>
      rw [if_pos rfl]
      exact bind_induction (I := GraphBuilt) hretrained.toSeated.compile fun _ _ ht => ht
  | false => exact hretrained

theorem graphBuilt_importGraph {doc : Value} (hdoc : Named IsText doc) :
    Respects (Kept GraphBuilt) (importGraph (α := α) doc) := by
  intro e he
  cases hparse : Document.parse doc with
  | error f =>
      have hrun : (importGraph doc).outcome e = (.error f, e) := by
        rw [importGraph, hparse, outcome_of_error_bind]
      rw [after_of_outcome hrun]
      exact he
  | ok parsed =>
      have hnamed := hdoc parsed.1 parsed.2 hparse
      have hstored := stored_replaceStored Value.idClass_isText hnamed.1 hnamed.2 e
        ⟨_, _, he.stocked⟩
      rw [after_importGraph hparse rfl]
      exact graphBuilt_refreshAndCompile hstored
        (moving_unbuffered.replaceStored parsed.1 parsed.2 e he.unbuffered)
        (moving_untrained.replaceStored parsed.1 parsed.2 e he.untrained)

/-- Reading the stores and compiling what they hold is all that is left once a backend is set up. -/
theorem graphBuilt_of_equip {e t : Engine α} (hequip : equip.outcome e = (.ok (), t))
    (hstored : t.Stored IsText) (hfresh : t.seedIsFresh = true) (hunbuffered : t.Unbuffered)
    (huntrained : t.trained = false) : (init.after e).GraphBuilt := by
  rcases hstored with ⟨ns, ss, hs⟩
  have hunbuffered' := moving_unbuffered.readGraph t hunbuffered
  have huntrained' := moving_untrained.readGraph t huntrained
  rcases outcome_readGraph Value.idClass_isText hs hfresh with ⟨u, hread, hu, -⟩
  rw [after_of_outcome hread] at hunbuffered' huntrained'
  have hseated : u.Seated := ⟨hu, hunbuffered', huntrained'⟩
  rw [init, after, outcome_bind_of_ok hequip, outcome_bind_of_ok hread]
  exact bind_induction (I := GraphBuilt) hseated.compile fun _ t ht =>
    (respects_projection (R := Eq) t) ▸ ht

/-- A backend that has its device takes over the settings again. -/
theorem outcome_equip_of_unbuffered {e : Engine α} (h : e.Unbuffered) :
    equip.outcome e = (.ok (), e.retrained e.training) := by
  have hready := (moving_unbuffered.retrained e e.training h).hasReadyBackend
  rcases h with ⟨b, hb, -⟩
  have hacquire : acquireBackend.outcome e = (.ok (), e) := by
    rw [acquireBackend, outcome_get_bind, hb]
    rfl
  rw [equip, outcome_bind_of_ok hacquire, outcome_modify_bind, outcome_get_bind]
  have hmodify : updateBackend (Backend.configure e.training) e = e.retrained e.training := rfl
  rw [hmodify, hready]
  rfl

theorem graphBuilt_init {e : Engine α} (he : e.GraphBuilt) (hfresh : e.seedIsFresh = true) :
    (init.after e).GraphBuilt := by
  have hsame := equipping_undisturbed.retrained e e.training
  exact graphBuilt_of_equip (outcome_equip_of_unbuffered he.unbuffered)
    ⟨_, _, hsame.stocked he.stocked⟩ (hsame.seedIsFresh.trans hfresh)
    (moving_unbuffered.retrained e e.training he.unbuffered) he.untrained

theorem graphBuilt_close : Respects (Kept GraphBuilt) (close (α := α)) := by
  intro e he
  rcases he.unbuffered with ⟨b, hb, hready, hsettings⟩
  have hstands := Backend.stands_release b
  have hseated : (close.after e).Seated := by
    refine he.toSeated.of_undisturbed (undisturbed_close e) ⟨b.release, ?_, hstands.ready hready,
      hstands.settings.trans hsettings⟩ he.untrained
    show e.backend.map Backend.release = _
    rw [hb, Option.map_some]
  exact ⟨hseated, fun c hc => nomatch hc⟩

/-- A training tick is refused by the backend, if not before. -/
theorem graphBuilt_trainTick (inputs targets deltas : Option (Operand α)) :
    Respects (Kept GraphBuilt) (trainTick inputs targets deltas) := by
  intro e he
  have hmeasured := moving_unbuffered.toRunning.measure inputs targets e he.unbuffered
  have hunbuffered := moving_unbuffered.toRunning.trainTick inputs targets deltas
    (unbuffered_onBackend fun b => (Backend.ticked_trainTick deltas b).stands) (fun _ h => h) e
    he.unbuffered
  cases hrun : (trainTick inputs targets deltas).outcome e with
  | mk r e' =>
      rw [after_of_outcome hrun] at hunbuffered ⊢
      cases r with
      | error f => exact he.of_quiet (quiet_of_trainTick_eq_error hrun) hunbuffered
      | ok loss =>
          rcases outcome_bind_eq_ok hrun with ⟨x, t, hmeasure, h⟩
          rcases outcome_bind_eq_ok h with ⟨_, u, htick, -⟩
          rcases outcome_onBackend_eq_ok htick with ⟨b, b', hb, hstep, -⟩
          rw [after_of_outcome hmeasure] at hmeasured
          rcases hmeasured with ⟨b₀, hb₀, -, hsettings⟩
          rw [hb] at hb₀
          cases hb₀
          rcases Backend.trainTick_refused hsettings deltas with ⟨f, b₁, hfails⟩
          rw [hstep] at hfails
          cases hfails

/-- Writing back what the graph carries gives a graph that carries it. -/
theorem graphBuilt_syncWeights [Lossless α] :
    Respects (Kept GraphBuilt) (syncWeights (α := α)) := by
  intro e he
  rcases syncWeights_refused_or_reads e with ⟨f, hrun⟩ | ⟨c, weights, biases, b, hc, hb, hread⟩
  · rw [after_of_outcome hrun]
    exact he
  · have hruns := he.runs c hc
    have hP := Value.idClass_isText
    have hplaceable := placeable_of_indexes hruns.toIndexes hP he.stocked.neurons hruns.known
    rw [after_of_outcome (outcome_syncWeights_of_placeable hP he.stocked hc hplaceable hb hread)]
    refine ⟨⟨stocked_synced he.stocked c weights biases, he.unbuffered, rfl⟩, fun d hd => ?_⟩
    have hcd : e.compiled = some d := hd
    rw [hc] at hcd
    cases hcd
    refine ⟨indexes_synced hruns.toIndexes weights biases, ?_, weights, biases, ?_,
      carries_synced he.stocked hruns.toIndexes weights biases⟩
    · intro m hm
      rcases List.mem_map.mp hm with ⟨n, hn, rfl⟩
      rw [rebiased_activation]
      exact hruns.known n hn
    · rw [← (outcome_readParameters_eq_ok hread).2.1]
      exact readParameters?_congr rfl

theorem graphBuilt_exportGraph : Respects (Kept GraphBuilt) (exportGraph (α := α)) := by
  intro e he
  rw [exportGraph, after, outcome_bind_of_ok (outcome_syncIfTrained_of_untrained he.untrained)]
  exact he

omit [Scalar α] in
theorem unbuffered_takeRate (rate : Option (Except Fault Float)) :
    Respects (Kept Unbuffered) (takeRate (α := α) rate) := by
  cases rate with
  | none => exact respects_pure ()
  | some r => exact (respects_of r).bind fun _ => respects_modify fun _ h => h

end Engine

open Engine
open Attempt
open Value (IsText)

variable {α : Type} [Scalar α] [Scalar.Lossless α]

/-- Whatever is done with an engine on an operation graph, its backend runs the cached graph. -/
theorem Action.graphBuilt_perform {a : Action α} {e : Engine α} (ha : a.Admissible IsText e)
    (he : e.GraphBuilt) : (a.perform.after e).GraphBuilt := by
  have hrunning := (moving_unbuffered (α := α)).toRunning
  have hquiet : ∀ {β : Type} {step : Attempt (Engine α) β}, Respects Quiet step →
      Respects (Kept Unbuffered) step → (step.after e).GraphBuilt :=
    fun hstep hkeeps => he.of_quiet (hstep e) (hkeeps e he.unbuffered)
  cases a with
  | init =>
      rw [perform, after_void]
      exact graphBuilt_init he ha
  | compile =>
      rw [perform, after_void]
      exact he.toSeated.compile
  | close => exact graphBuilt_close e he
  | addNeuron | addSynapse | deleteNeuron | deleteSynapse | updateSynapseWeight =>
      rcases Action.amends Value.idClass_isText ha rfl with ⟨_, hsettings⟩ | ⟨step, hperform, h⟩
      · cases hsettings
      · rw [hperform]
        exact h.graphBuilt.void e he
  | importGraph doc => exact (graphBuilt_importGraph ha).void e he
  | exportGraph => exact graphBuilt_exportGraph.void e he
  | syncWeights => exact graphBuilt_syncWeights e he
  | injectInput values =>
      exact hquiet (running_quiet.injectInput values) (hrunning.injectInput values)
  | tick inputs => exact hquiet (running_quiet.tick inputs).void (hrunning.tick inputs).void
  | prepareTraining targets rate =>
      exact hquiet (running_quiet.prepareTraining targets (quiet_takeRate rate))
        (hrunning.prepareTraining targets (unbuffered_takeRate rate))
  | trainTick inputs targets deltas =>
      exact (graphBuilt_trainTick inputs targets deltas).void e he
  | setTraining settings => exact graphBuilt_setTraining settings e he
  | attend audience =>
      exact hquiet (respects_modify fun e => running_quiet.audience e audience)
        (respects_modify fun e => hrunning.audience e audience)

end Plexus
