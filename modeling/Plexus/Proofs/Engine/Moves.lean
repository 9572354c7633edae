import Plexus.Proofs.Backend.Standing
import Plexus.Proofs.Engine.Coherence

/-!
# What the actions on an engine respect

The actions are put together from a few moves: the stores and the cache change, a graph is
loaded and installed, the backend is set up, the network is run.  Where a relation between
engines allows for these moves, everything that is put together from them respects it.
-/

namespace Plexus
namespace Engine

open Attempt

variable {α β : Type}

theorem outcome_onBackend_of_none {e : Engine α} (h : e.backend = none)
    (step : Attempt (Backend α) β) : (onBackend step).outcome e = (.error .absent, e) := by
  show onBackend step e = _
  rw [onBackend, h]

theorem outcome_onBackend_eq_ok {step : Attempt (Backend α) β} {e e' : Engine α} {r : β}
    (h : (onBackend step).outcome e = (.ok r, e')) :
    ∃ b b', e.backend = some b ∧ step.outcome b = (.ok r, b') ∧
      e' = { e with backend := some b' } := by
  cases hb : e.backend with
  | none =>
      rw [outcome_onBackend_of_none hb] at h
      cases h
  | some b =>
      rw [outcome_onBackend hb, Prod.mk.injEq] at h
      exact ⟨b, _, rfl, Prod.ext h.1 rfl, h.2.symm⟩

/-- A step on the backend is one on an engine that has a backend, and none otherwise. -/
theorem respects_onBackend {R : Engine α → Engine α → Prop} [IsPreorder (Engine α) R]
    {step : Attempt (Backend α) β}
    (h : ∀ (e : Engine α) b, e.backend = some b → R e { e with backend := some (step.after b) }) :
    Respects R (onBackend step) := by
  intro e
  cases hb : e.backend with
  | none =>
      rw [after_of_outcome (outcome_onBackend_of_none hb step)]
      exact refl e
  | some b =>
      rw [after_of_outcome (outcome_onBackend hb step)]
      exact h e b hb

/-!
## Reading and writing the graph
-/

/-- A relation that allows for changes of the graph. -/
structure Editing (R : Engine α → Engine α → Prop) : Prop where
  graph : ∀ (e : Engine α) neuronStore synapseStore neurons written synapses issued,
    R e { e with neuronStore, synapseStore, neurons, written, synapses, issued }

variable {R : Engine α → Engine α → Prop} [IsPreorder (Engine α) R]

namespace Editing

omit [IsPreorder (Engine α) R] in
theorem onNeurons (h : Editing R) (step : Attempt (Store Neuron) β) :
    Respects R (onNeurons step) :=
  fun e => h.graph e _ _ _ _ _ _

omit [IsPreorder (Engine α) R] in
theorem onSynapses (h : Editing R) (step : Attempt (Store Synapse) β) :
    Respects R (onSynapses step) :=
  fun e => h.graph e _ _ _ _ _ _

theorem refresh (h : Editing R) : Respects R refresh := by
  refine respects_get_bind fun e => ?_
  refine ((respects_of _).bind fun neurons => ?_) e
  refine (respects_modify fun e => h.graph e _ _ _ _ _ _).bind fun _ => ?_
  refine respects_get_bind fun e => ?_
  refine ((respects_of _).bind fun synapses => ?_) e
  exact respects_modify fun e => h.graph e _ _ _ _ _ _

omit [IsPreorder (Engine α) R] in
theorem issueId (h : Editing R) : Respects R issueId :=
  respects_get_bind fun e => h.graph e _ _ _ _ _ _

theorem seedDefaultNetwork (h : Editing R) : Respects R seedDefaultNetwork := by
  refine h.issueId.bind fun _ => h.issueId.bind fun _ => ?_
  refine (h.onNeurons _).bind fun _ => (h.onNeurons _).bind fun _ => ?_
  exact h.issueId.bind fun _ => h.onSynapses _

theorem readGraph (h : Editing R) : Respects R readGraph := by
  refine h.refresh.bind fun _ => respects_get_bind fun e => ?_
  split
  · exact (h.seedDefaultNetwork.bind fun _ => h.refresh) e
  · exact refl e

theorem replaceStored (h : Editing R) (ns : List Neuron) (ss : List Synapse) :
    Respects R (replaceStored ns ss) := by
  refine (h.onSynapses _).bind fun _ => (h.onNeurons _).bind fun _ => ?_
  refine (Respects.forM fun n _ => h.onNeurons _).bind fun _ => ?_
  exact Respects.forM fun s _ => h.onSynapses _

end Editing

theorem respects_projection : Respects R projection := respects_get_bind fun e => respects_of _ e

theorem respects_findSynapse (id : Value) : Respects R (findSynapse id) := by
  refine respects_get_bind fun e => ?_
  split
  · exact refl e
  · exact refl e

variable [Scalar α]

/-!
## What is respected
-/

/-- A relation that allows for parameters to be written back. -/
structure Syncing (R : Engine α → Engine α → Prop) : Prop extends Editing R where
  saved : ∀ e : Engine α, R e { e with trained := false }
  read : Respects R (onBackend Backend.readParameters)

/-- A relation that allows for a new compilation. -/
structure Compiling (R : Engine α → Engine α → Prop) : Prop where
  load : ∀ c : Compiled α, Respects R (onFault (load c) abandon)
  compiled : ∀ (e : Engine α) (c : Compiled α), R e { e with compiled := some c }
  installed : ∀ (e : Engine α) staged, R e { e with staged, trained := false }
  renewTargets : ∀ cells, Respects R (renewTargets cells)

/-- A relation that allows for a backend to be set up and to be given settings. -/
structure Equipping (R : Engine α → Engine α → Prop) : Prop where
  acquire : ∀ (e : Engine α) b, e.backend = none →
    Backend.select e.host e.settings e.training (Capabilities.probe e.host) = .ok b →
    R e { e with backend := some b }
  boot : ∀ e : Engine α, e.hasReadyBackend = false → R e ((onBackend Backend.init).after e)
  retrained : ∀ (e : Engine α) settings, R e (e.retrained settings)

/-- A relation that allows for the network to be run. -/
structure Running (R : Engine α → Engine α → Prop) : Prop where
  staged : ∀ (e : Engine α) staged, R e { e with staged }
  audience : ∀ (e : Engine α) audience, R e { e with audience }
  forward : ∀ inputs, Respects R (onBackend (Backend.forward inputs))
  supervise : ∀ targets, Respects R (supervise targets)
  setTargets : ∀ targets,
    Respects R (onBackend (Backend.setTargets targets) >>= fun _ => keepTargets targets)

/-- A relation that allows for all of these moves. -/
structure Moving (R : Engine α → Engine α → Prop) : Prop
    extends Syncing R, Compiling R, Equipping R, Running R

/-!
## Writing back
-/

namespace Editing

theorem syncNeuron (h : Editing R) (c : Compiled α) (biases : Array α) (n : Neuron) :
    Respects R (syncNeuron c biases n) := by
  refine (respects_of _).bind fun i => ?_
  dsimp only
  split
  · refine (respects_of _).bind fun n => (h.onNeurons _).bind fun _ => ?_
    exact respects_modify fun e => h.graph e _ _ _ _ _ _
  · exact respects_pure _

theorem syncSynapse (h : Editing R) (c : Compiled α) (weights : Array α) (s : Synapse) :
    Respects R (syncSynapse c weights s) := by
  refine respects_guard ?_
  split
  · exact respects_pure _
  · dsimp only
    split
    · exact h.onSynapses _
    · exact respects_pure _

end Editing

namespace Syncing

theorem syncWeights (h : Syncing R) : Respects R syncWeights := by
  refine respects_get_bind fun e => ?_
  split
  · exact refl e
  · next c hc =>
    refine respects_guard ?_ e
    refine h.read.bind fun parameters => ?_
    refine (Respects.forM fun n _ => h.syncNeuron c _ n).bind fun _ => ?_
    refine (Respects.forM fun s _ => h.syncSynapse c _ s).bind fun _ => ?_
    exact h.refresh.bind fun _ => respects_modify h.saved

theorem syncIfTrained (h : Syncing R) : Respects R syncIfTrained := by
  refine respects_get_bind fun e => ?_
  split
  · exact h.syncWeights e
  · exact refl e

theorem exportGraph (h : Syncing R) : Respects R exportGraph :=
  h.syncIfTrained.bind fun _ => respects_get_bind fun e => refl e

end Syncing

/-!
## Compiling
-/

/-- Loading a graph is a step on the backend, which prepares it or leaves it as it stands. -/
theorem exists_load (c : Compiled α) (e : Engine α) :
    ∃ step : Attempt (Backend α) Unit, (load c).outcome e = (onBackend step).outcome e ∧
      Respects Backend.Stands step ∧
      ∀ b b', step.outcome b = (.ok (), b') → b'.stage = .compiled :=
  ⟨_, by rw [load, outcome_get_bind], Backend.stands_prepare _ _ _ _ _,
    fun _ _ => Backend.stage_of_prepare⟩

/-- Loading a graph prepares the backend with it, or gives up the graph with the network. -/
theorem load_or_abandon (c : Compiled α) (e : Engine α) :
    (∃ b b', e.backend = some b ∧ b.Stands b' ∧ b'.stage = .compiled ∧
        (onFault (load c) abandon).outcome e = (.ok (), { e with backend := some b' })) ∨
      ∃ f backend, Option.Rel Backend.Stands e.backend backend ∧
        (onFault (load c) abandon).outcome e =
          (.error f, updateBackend Backend.release
            { e with backend, compiled := none, trained := false }) := by
  rcases exists_load c e with ⟨step, hload, hstands, hstage⟩
  cases hb : e.backend with
  | none =>
      rw [outcome_onBackend_of_none hb] at hload
      rcases outcome_onFault_of_error hload abandon with ⟨f, hfault⟩
      refine Or.inr ⟨f, none, .none, ?_⟩
      rw [hfault, ← hb]
      rfl
  | some b =>
      rw [outcome_onBackend hb] at hload
      have hafter := hstands b
      cases hstep : step.outcome b with
      | mk r b' =>
          rw [hstep] at hload
          rw [after_of_outcome hstep] at hafter
          cases r with
          | ok _ =>
              exact Or.inl ⟨b, b', rfl, hafter, hstage b b' hstep,
                outcome_onFault_of_ok hload abandon⟩
          | error f =>
              rcases outcome_onFault_of_error hload abandon with ⟨f', hfault⟩
              exact Or.inr ⟨f', some b', .some hafter, hfault⟩

theorem Compiling.install (h : Compiling R) (c : Compiled α) : Respects R (install c) := by
  refine (respects_modify fun e => h.compiled e c).bind fun _ => respects_get_bind fun e => ?_
  refine ((respects_of _).bind fun rows => (respects_of _).bind fun cells => ?_) e
  exact (respects_modify fun e => h.installed e _).bind fun _ => h.renewTargets cells

theorem Compiling.compile (h : Compiling R) : Respects R compile := by
  refine respects_get_bind fun e => ?_
  refine respects_guard ?_ e
  refine (respects_of _).bind fun c => (h.load c).bind fun _ => ?_
  exact (h.install c).bind fun _ => respects_pure c

theorem respects_refreshAndCompile (hedit : Editing R) (hcompile : Compiling R) :
    Respects R refreshAndCompile := by
  refine hedit.refresh.bind fun _ => respects_get_bind fun e => ?_
  split
  · exact (hcompile.compile.bind fun _ => respects_projection) e
  · exact respects_projection e

omit [Scalar α] in
theorem Equipping.equip (h : Equipping R) : Respects R equip := by
  have hacquire : Respects R acquireBackend := by
    refine respects_get_bind fun e => ?_
    split
    · next hnone =>
      cases hselect : Backend.select e.host e.settings e.training (Capabilities.probe e.host) with
      | error f => exact refl e
      | ok b => exact h.acquire e b (Option.isNone_iff_eq_none.mp hnone) hselect
    · exact refl e
  refine hacquire.bind fun _ => ?_
  refine (respects_modify fun e => h.retrained e e.training).bind fun _ => ?_
  refine respects_get_bind fun e => ?_
  split
  · next hready => exact h.boot e (by simpa using hready)
  · exact refl e

/-!
## Running
-/

omit [Scalar α] in
theorem respects_requireCompiled (operation : String) :
    Respects R (requireCompiled operation) := by
  refine respects_get_bind fun e => ?_
  split
  · exact refl e
  · exact refl e

omit [Scalar α] in
theorem respects_requireTrainable (operation : String) :
    Respects R (requireTrainable operation) := by
  refine (respects_requireCompiled operation).bind fun _ => respects_get_bind fun e => ?_
  split
  · split
    · exact refl e
    · exact refl e
  · exact refl e

/-- Taking over targets respects what the backend does with them, prepared or not. -/
theorem respects_retarget (hsupervise : ∀ targets, Respects R (supervise targets))
    (hset : ∀ targets,
      Respects R (onBackend (Backend.setTargets targets) >>= fun _ => keepTargets targets))
    (targets : Option (Operand α)) :
    Respects R (retarget targets) := by
  refine respects_get_bind fun e => ?_
  split
  · next ts b hb =>
    split
    · refine (respects_requireTrainable _).bind (fun _ => ?_) e
      exact (respects_pure ()).bind fun _ => hsupervise ts
    · exact hset ts e
  · exact refl e
  · split
    · exact refl e
    · exact refl e

omit [IsPreorder (Engine α) R] in
/-- An injection is refused, or it overlays a staged input that has a slot for every cell. -/
theorem injectInput_cases (values : Operand α) (e : Engine α) :
    (∃ f, (injectInput values).outcome e = (.error f, e)) ∨
      ∃ xs, values = .ok xs ∧ e.staged.size = e.batch * e.size ∧
        (injectInput values).outcome e =
          (.ok (), { e with staged := stage e.size e.batch e.staged xs }) := by
  rcases (respects_requireCompiled (R := Eq) "inject_input").check _ e with h | ⟨_, -, h⟩
  · exact Or.inl h
  rw [injectInput, h]
  cases values with
  | error f => exact Or.inl ⟨f, rfl⟩
  | ok xs =>
      rw [outcome_of_ok_bind, outcome_get_bind]
      cases e.training.microBatchSize.rows with
      | error f => exact Or.inl ⟨f, rfl⟩
      | ok rows =>
          rw [outcome_of_ok_bind]
          by_cases hlength : e.staged.size ≠ e.batch * e.size
          · rw [if_pos hlength]
            exact Or.inl ⟨_, rfl⟩
          · rw [if_neg hlength]
            exact Or.inr ⟨xs, rfl, Decidable.not_not.mp hlength, rfl⟩

theorem respects_tick (hforward : ∀ inputs, Respects R (onBackend (Backend.forward inputs)))
    (inputs : Option (Operand α)) :
    Respects R (tick inputs) := by
  refine (respects_requireCompiled _).bind fun _ => respects_get_bind fun e => ?_
  exact hforward _ e

/-- A training tick up to its loss respects what its parts do. -/
theorem respects_measure {targets : Option (Operand α)}
    (hforward : ∀ inputs, Respects R (onBackend (Backend.forward inputs)))
    (hretarget : Respects R (retarget targets))
    (haudience : ∀ (e : Engine α) audience, R e { e with audience })
    (inputs : Option (Operand α)) :
    Respects R (measure inputs targets) := by
  refine (respects_requireTrainable _).bind fun _ => hretarget.bind fun _ => ?_
  refine (respects_tick hforward inputs).bind fun outputs => respects_get_bind fun e => ?_
  refine ((respects_of _).bind fun loss => ?_) e
  have hemit : Respects R (onAudience (Audience.emit ⟨.loss, Scalar.toFloat loss⟩)) :=
    fun e => haudience e _
  exact hemit.bind fun _ => respects_pure loss

namespace Running

theorem injectInput (h : Running R) (values : Operand α) : Respects R (injectInput values) := by
  intro e
  rcases injectInput_cases values e with ⟨f, hrun⟩ | ⟨xs, -, -, hrun⟩
  · rw [after_of_outcome hrun]
    exact refl e
  · rw [after_of_outcome hrun]
    exact h.staged e _

theorem tick (h : Running R) (inputs : Option (Operand α)) : Respects R (tick inputs) :=
  respects_tick h.forward inputs

/-- Preparing training respects what setting the rate does. -/
theorem prepareTraining (h : Running R) (targets : Operand α)
    {rate : Option (Except Fault Float)} (hrate : Respects R (takeRate rate)) :
    Respects R (prepareTraining targets rate) :=
  (respects_requireTrainable _).bind fun _ => hrate.bind fun _ => h.supervise targets

theorem retarget (h : Running R) (targets : Option (Operand α)) :
    Respects R (retarget targets) :=
  respects_retarget h.supervise h.setTargets targets

theorem measure (h : Running R) (inputs targets : Option (Operand α)) :
    Respects R (measure inputs targets) :=
  respects_measure h.forward (h.retarget targets) h.audience inputs

/-- A training tick respects what training and marking the engine as trained do. -/
theorem trainTick (h : Running R) (inputs targets deltas : Option (Operand α))
    (htrain : Respects R (onBackend (Backend.trainTick deltas)))
    (hmark : ∀ e : Engine α, R e { e with trained := true }) :
    Respects R (trainTick inputs targets deltas) :=
  (h.measure inputs targets).bind fun loss => htrain.bind fun _ =>
    (respects_modify hmark).bind fun _ => respects_pure loss

end Running

end Engine

end Plexus
