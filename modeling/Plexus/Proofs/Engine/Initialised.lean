import Plexus.Proofs.Training.Rate

/-!
# What an initialised engine can compile

Once an engine has been initialised, its backend is set up and works with the settings of the
engine, and is trained only at a rate that can be used.  This stays so, whatever is done with the
engine.  So a graph with known activation tags is compiled whenever there is room for it,
whatever the stores and the backend are.
-/

namespace Plexus

open Attempt

namespace Backend

variable {α : Type} [Scalar α]

theorem stands_prepareTraining (targets : Operand α) (rate : Except Fault Float) :
    Respects Stands (prepareTraining targets rate : Attempt (Backend α) Unit) := by
  intro b
  rcases prepareTraining_cases targets rate b with
    ⟨f, b', hrun, hleft⟩ | ⟨settings, held, t, x, hmachine, -, -, hrun⟩
  · rw [after_of_outcome hrun]
    exact hleft.calm.stands
  · rw [after_of_outcome hrun]
    refine ⟨rfl, ?_, fun _ => (by decide : Stage.ready ≤ Stage.trainable)⟩
    rw [settings_of_dense hmachine, settings_of_dense rfl]

end Backend

namespace Engine

variable {α β : Type}

/-- Only an engine on a dense backend has targets. -/
def Suited (e : Engine α) : Prop :=
  e.targets.isSome = true → ∃ b, e.backend = some b ∧ b.settings.isSome = true

/-- An engine with a backend that has its device and works with the settings of the engine. -/
def Booted (e : Engine α) : Prop :=
  ∃ b, e.backend = some b ∧ .ready ≤ b.stage ∧ ∀ s, b.settings = some s → s = e.training

/-- An engine that is set up to compile, and to train if it does at a rate that can be used. -/
structure Primed (e : Engine α) : Prop where
  booted : e.Booted
  targets : e.targets.isSome = true → ∃ x, e.rate.toFloat = .ok x
  trainable : ∀ b, e.backend = some b → b.stage = .trainable → ∃ x, e.rate.toFloat = .ok x

theorem Booted.hasReadyBackend {e : Engine α} (h : e.Booted) : e.hasReadyBackend = true := by
  rcases h with ⟨b, hb, hready, -⟩
  exact hasReadyBackend_iff.mpr ⟨b, hb, hready⟩

/-!
## Steps on the backend
-/

theorem Suited.of_stands {e e' : Engine α} {b b' : Backend α} (he : e.Suited)
    (hb : e.backend = some b) (h : b.Stands b') (hb' : e'.backend = some b')
    (htargets : e'.targets = e.targets) : e'.Suited := by
  intro hsome
  rcases he (htargets ▸ hsome) with ⟨b₀, hb₀, hdense⟩
  rw [hb] at hb₀
  cases hb₀
  exact ⟨b', hb', h.settings.symm ▸ hdense⟩

theorem suited_onBackend {step : Attempt (Backend α) β} (h : Respects Backend.Stands step) :
    Respects (Kept Suited) (onBackend step) :=
  respects_onBackend fun _ b hb he => he.of_stands hb (h b) rfl rfl

theorem Booted.of_stands {e e' : Engine α} {b b' : Backend α} (he : e.Booted)
    (hb : e.backend = some b) (h : b.Stands b') (hb' : e'.backend = some b')
    (htraining : e'.training = e.training) : e'.Booted := by
  rcases he with ⟨b₀, hb₀, hready, hsettings⟩
  rw [hb] at hb₀
  cases hb₀
  refine ⟨b', hb', h.ready hready, fun s hs => ?_⟩
  rw [htraining]
  exact hsettings s (h.settings ▸ hs)

theorem primed_of_ticked {step : Attempt (Backend α) β} (h : Respects Backend.Ticked step) :
    Respects (Kept Primed) (onBackend step) := by
  refine respects_onBackend fun e b hb he => ⟨?_, he.targets, fun b' hb' hstage => ?_⟩
  · exact he.booted.of_stands hb (h b).stands rfl rfl
  · cases hb'
    exact he.trainable b hb ((h b).stage ▸ hstage)

/-- What a step on the backend keeps, and targets that are kept after it, they keep together. -/
theorem kept_keepTargets {I : Engine α → Prop} {step : Attempt (Backend α) Unit}
    {targets : Operand α} {e : Engine α} (hstep : Kept I e ((onBackend step).after e))
    (hok : ∀ b b' ts, e.backend = some b → step.outcome b = (.ok (), b') → I e →
      I { e with backend := some b', targets := some ts }) :
    Kept I e ((onBackend step >>= fun _ => keepTargets targets).after e) := by
  rw [after, outcome_bind]
  cases hrun : (onBackend step).outcome e with
  | mk r t =>
      rw [after_of_outcome hrun] at hstep
      cases r with
      | error f => exact hstep
      | ok _ =>
          rcases outcome_onBackend_eq_ok hrun with ⟨b, b', hb, hb', rfl⟩
          cases targets with
          | error f => exact hstep
          | ok ts => exact hok b b' ts hb hb'

variable [Scalar α]

theorem primed_onBackend_prepareTraining (targets : Operand α) (e : Engine α) :
    Kept Primed e ((onBackend (Backend.prepareTraining targets e.rate.toFloat)).after e) := by
  intro he
  rcases he.booted with ⟨b, hb, -⟩
  have hstands := Backend.stands_prepareTraining targets e.rate.toFloat b
  rw [after_of_outcome (outcome_onBackend hb _)]
  refine ⟨he.booted.of_stands hb hstands rfl rfl, he.targets, fun b' hb' hstage => ?_⟩
  cases hb'
  rcases Backend.prepareTraining_cases targets e.rate.toFloat b with
    ⟨f, b₁, hrun, hleft⟩ | ⟨_, _, _, x, -, hx, -, -⟩
  · rw [hrun] at hstage
    exact he.trainable b hb (hleft.calm.stage ▸ hstage)
  · exact ⟨x, hx⟩

/-!
## Compiling
-/

theorem suited_load (c : Compiled α) : Respects (Kept Suited) (onFault (load c) abandon) := by
  intro e he htargets
  rcases load_or_abandon c e with ⟨b, b', hb, hstands, -, hrun⟩ | ⟨f, backend, hrel, hrun⟩
  · rw [after_of_outcome hrun] at htargets ⊢
    exact he.of_stands hb hstands rfl rfl htargets
  · rw [after_of_outcome hrun] at htargets ⊢
    rcases he htargets with ⟨b, hb, -⟩
    rw [hb] at hrel
    cases hrel with
    | some hstands =>
        have hreleased := IsTrans.trans _ _ _ hstands (Backend.stands_release _)
        exact he.of_stands hb hreleased rfl rfl htargets

theorem primed_load (c : Compiled α) : Respects (Kept Primed) (onFault (load c) abandon) := by
  intro e he
  rcases load_or_abandon c e with ⟨b, b', hb, hstands, hstage, hrun⟩ | ⟨f, backend, hrel, hrun⟩
  · rw [after_of_outcome hrun]
    refine ⟨he.booted.of_stands hb hstands rfl rfl, he.targets, fun b₁ hb₁ htrainable => ?_⟩
    cases hb₁
    rw [hstage] at htrainable
    cases htrainable
  · rw [after_of_outcome hrun]
    rcases he.booted with ⟨b, hb, -⟩
    rw [hb] at hrel
    cases hrel with
    | some hstands =>
        refine ⟨?_, he.targets, fun b₁ hb₁ htrainable => ?_⟩
        · exact he.booted.of_stands hb (IsTrans.trans _ _ _ hstands (Backend.stands_release _))
            rfl rfl
        · cases hb₁
          exact absurd htrainable (Backend.stage_release _)

theorem suited_renewTargets (cells : Nat) :
    Respects (Kept Suited) (renewTargets (α := α) cells) := by
  refine respects_get_bind fun e => ?_
  split
  · next hsome =>
    have htargets := (Bool.and_eq_true_iff.mp hsome).1
    rw [after, outcome_set_bind]
    exact fun he => suited_onBackend (Backend.stands_prepareTraining _ _)
      { e with targets := some (blankTargets cells) } fun _ => he htargets
  · exact refl e

theorem primed_renewTargets (cells : Nat) :
    Respects (Kept Primed) (renewTargets (α := α) cells) := by
  refine respects_get_bind fun e => ?_
  split
  · next hsome =>
    have htargets := (Bool.and_eq_true_iff.mp hsome).1
    rw [after, outcome_set_bind]
    exact fun he => primed_onBackend_prepareTraining _
      { e with targets := some (blankTargets cells) }
      ⟨he.booted, fun _ => he.targets htargets, he.trainable⟩
  · exact refl e

theorem primed_supervise (targets : Operand α) : Respects (Kept Primed) (supervise targets) := by
  refine respects_get_bind fun e => kept_keepTargets ?_ fun b b' ts hb hrun he => ?_
  · exact primed_onBackend_prepareTraining targets e
  · have hstands := Backend.stands_prepareTraining targets e.rate.toFloat b
    rw [after_of_outcome hrun] at hstands
    rcases Backend.prepareTraining_cases targets e.rate.toFloat b with
      ⟨f, _, hfails, -⟩ | ⟨_, _, _, x, -, hx, -, -⟩
    · rw [hfails] at hrun
      cases hrun
    · exact ⟨he.booted.of_stands hb hstands rfl rfl, fun _ => ⟨x, hx⟩, fun _ _ _ => ⟨x, hx⟩⟩

omit [Scalar α] in
/-- New targets are taken only while the backend can be trained, and so at a rate it can use. -/
theorem primed_setTargets (targets : Operand α) :
    Respects (Kept Primed)
      (onBackend (Backend.setTargets targets) >>= fun _ => keepTargets targets) := by
  refine fun e => kept_keepTargets ?_ fun b b' ts hb hrun he => ?_
  · exact primed_of_ticked (Backend.ticked_setTargets targets) e
  · have hticked := Backend.ticked_setTargets targets b
    rw [after_of_outcome hrun] at hticked
    have hrate := he.trainable b hb (Stage.eq_trainable_of_le (Backend.setTargets_eq_ok hrun).1)
    exact ⟨he.booted.of_stands hb hticked.stands rfl rfl, fun _ => hrate, fun _ _ _ => hrate⟩

/-!
## What is done with an engine
-/

theorem moving_suited : Moving (Kept (Suited (α := α))) where
  graph _ _ _ _ _ _ _ h := h
  saved _ h := h
  read := suited_onBackend fun b => (Backend.ticked_readParameters b).stands
  load := suited_load
  compiled _ _ h := h
  installed _ _ h := h
  renewTargets := suited_renewTargets
  acquire e b hnone _ he htargets := by
    rcases he htargets with ⟨b₀, hb₀, -⟩
    rw [hnone] at hb₀
    cases hb₀
  boot e _ := suited_onBackend Backend.stands_init e
  retrained e settings he htargets := by
    rcases he htargets with ⟨b, hb, hdense⟩
    refine ⟨b.configure settings, ?_, ?_⟩
    · rw [retrained, updateBackend, hb, Option.map_some]
    · rw [b.settings_configure, Option.isSome_map]
      exact hdense
  staged _ _ h := h
  audience _ _ h := h
  forward inputs := suited_onBackend fun b => (Backend.ticked_forward inputs b).stands
  supervise targets := by
    refine respects_get_bind fun e => kept_keepTargets ?_ fun b b' ts hb hrun _ _ => ?_
    · exact suited_onBackend (Backend.stands_prepareTraining _ _) e
    · rcases Backend.prepareTraining_cases targets e.rate.toFloat b with
        ⟨f, _, hfails, -⟩ | ⟨_, _, _, _, -, -, -, hdone⟩
      · rw [hfails] at hrun
        cases hrun
      · rw [hdone] at hrun
        cases hrun
        exact ⟨_, rfl, by rw [Backend.settings_of_dense rfl]; rfl⟩
  setTargets targets := by
    refine fun e => kept_keepTargets ?_ fun b b' ts hb hrun _ _ => ?_
    · exact suited_onBackend (fun b => (Backend.ticked_setTargets targets b).stands) e
    · have hticked := Backend.ticked_setTargets targets b
      rw [after_of_outcome hrun] at hticked
      exact ⟨b', rfl, hticked.settings.symm ▸ (Backend.setTargets_eq_ok hrun).2⟩

theorem moving_primed : Moving (Kept (Primed (α := α))) where
  graph _ _ _ _ _ _ _ h := ⟨h.booted, h.targets, h.trainable⟩
  saved _ h := ⟨h.booted, h.targets, h.trainable⟩
  read := primed_of_ticked Backend.ticked_readParameters
  load := primed_load
  compiled _ _ h := ⟨h.booted, h.targets, h.trainable⟩
  installed _ _ h := ⟨h.booted, h.targets, h.trainable⟩
  renewTargets := primed_renewTargets
  acquire e b hnone _ he := by
    rcases he.booted with ⟨b₀, hb₀, -⟩
    rw [hnone] at hb₀
    cases hb₀
  boot e hready he := by
    -- An engine that is set up has no backend to boot.
    rw [he.booted.hasReadyBackend] at hready
    cases hready
  retrained e settings he := by
    rcases he.booted with ⟨b, hb, hready, -⟩
    have hb' : (e.retrained settings).backend = some (b.configure settings) := by
      rw [retrained, updateBackend, hb, Option.map_some]
    refine ⟨⟨_, hb', ?_, fun s hs => ?_⟩, he.targets, fun b' hb₁ htrainable => ?_⟩
    · rw [b.stage_configure]
      exact hready
    · rw [b.settings_configure] at hs
      rcases Option.map_eq_some_iff.mp hs with ⟨_, -, rfl⟩
      rfl
    · rw [hb'] at hb₁
      cases hb₁
      rw [b.stage_configure] at htrainable
      exact he.trainable b hb htrainable
  staged _ _ h := ⟨h.booted, h.targets, h.trainable⟩
  audience _ _ h := ⟨h.booted, h.targets, h.trainable⟩
  forward inputs := primed_of_ticked (Backend.ticked_forward inputs)
  supervise := primed_supervise
  setTargets := primed_setTargets

omit [Scalar α] in
theorem suited_takeRate (rate : Option (Except Fault Float)) :
    Respects (Kept Suited) (takeRate (α := α) rate) := by
  cases rate with
  | none => exact respects_pure ()
  | some r => exact (respects_of r).bind fun _ => respects_modify fun _ h => h

omit [Scalar α] in
theorem primed_takeRate (rate : Option (Except Fault Float)) :
    Respects (Kept Primed) (takeRate (α := α) rate) := by
  cases rate with
  | none => exact respects_pure ()
  | some r =>
      refine (respects_of r).bind fun x => respects_modify fun e h => ?_
      exact ⟨h.booted, fun _ => ⟨x, rfl⟩, fun _ _ _ => ⟨x, rfl⟩⟩

omit [Scalar α] in
theorem suited_close : Respects (Kept Suited) (close (α := α)) := by
  intro e _ htargets
  cases htargets

omit [Scalar α] in
theorem primed_close : Respects (Kept Primed) (close (α := α)) := by
  intro e he
  rcases he.booted with ⟨b, hb, -⟩
  have hb' : (close.after e).backend = some b.release := congrArg (Option.map Backend.release) hb
  refine ⟨he.booted.of_stands hb (Backend.stands_release b) hb' rfl, ?_, ?_⟩
  · intro htargets
    cases htargets
  · intro b₁ hb₁ htrainable
    rw [hb'] at hb₁
    cases hb₁
    exact absurd htrainable (Backend.stage_release b)

end Engine

open Engine

variable {α : Type} [Scalar α]

/-- What the moves, closing, training and setting a rate respect, every deed respects. -/
theorem Deed.respects {R : Engine α → Engine α → Prop} [IsPreorder (Engine α) R] (h : Moving R)
    (hclose : Respects R close) (hrate : ∀ rate, Respects R (takeRate rate))
    (htrain : ∀ deltas, Respects R (onBackend (Backend.trainTick deltas)))
    (hmark : ∀ e : Engine α, R e { e with trained := true }) (d : Deed α) :
    Respects R d.perform := by
  cases d with
  | openLoop rate => exact respects_openLoop (hrate rate)
  | act a =>
      cases a with
      | close => exact hclose
      | trainTick inputs targets deltas =>
          exact (h.trainTick inputs targets deltas (htrain deltas) hmark).void
      | prepareTraining targets rate => exact h.prepareTraining targets (hrate rate)
      | init | compile | addNeuron | addSynapse | deleteNeuron | deleteSynapse
      | updateSynapseWeight | importGraph | exportGraph | syncWeights | injectInput | tick
      | setTraining | attend => exact Action.respects h rfl

theorem Deed.suited_perform (d : Deed α) : Respects (Kept Suited) d.perform :=
  d.respects moving_suited suited_close suited_takeRate
    (fun deltas => suited_onBackend fun b => (Backend.ticked_trainTick deltas b).stands)
    fun _ h => h

theorem Deed.primed_perform (d : Deed α) : Respects (Kept Primed) d.perform :=
  d.respects moving_primed primed_close primed_takeRate
    (fun deltas => primed_of_ticked (Backend.ticked_trainTick deltas))
    fun _ h => ⟨h.booted, h.targets, h.trainable⟩

omit [Scalar α] in
/-- Whether a deed initialises the engine if it succeeds. -/
def Deed.initialises : Deed α → Bool
  | .act .init => true
  | _ => false

namespace Engine

/-!
## Initialising
-/

omit [Scalar α] in
theorem editing_booted : Editing (Kept (Booted (α := α))) where
  graph _ _ _ _ _ _ _ h := h

omit [Scalar α] in
/-- Setting a backend up gives it the settings of the engine, and its device if it has none. -/
theorem equip_eq_ok {e e' : Engine α} (h : equip.outcome e = (.ok (), e')) :
    ∃ b b', acquireBackend.outcome e = (.ok (), { e with backend := some b }) ∧
      (b.configure e.training).Stands b' ∧ .ready ≤ b'.stage ∧
        e' = { e with backend := some b' } := by
  rcases outcome_bind_eq_ok h with ⟨_, t, hacquire, h⟩
  have hsome : ∃ b, t = { e with backend := some b } := by
    rw [acquireBackend, outcome_get_bind] at hacquire
    split at hacquire
    · rcases outcome_bind_eq_ok hacquire with ⟨b, u, hselect, hset⟩
      rw [← (outcome_of_eq_ok hselect).2] at hset
      cases hset
      exact ⟨b, rfl⟩
    · next hnone =>
      cases hacquire
      have hsome : e.backend ≠ none := fun hb => hnone (by rw [hb]; rfl)
      rcases Option.ne_none_iff_exists'.mp hsome with ⟨b, hb⟩
      exact ⟨b, by rw [← hb]⟩
  rcases hsome with ⟨b, rfl⟩
  refine ⟨b, ?_⟩
  rw [outcome_modify_bind, outcome_get_bind] at h
  split at h
  · rcases outcome_onBackend_eq_ok h with ⟨b₁, b', hb₁, hinit, rfl⟩
    cases hb₁
    have hstands := Backend.stands_init (b.configure e.training)
    rw [after_of_outcome hinit] at hstands
    refine ⟨b', hacquire, hstands, ?_, rfl⟩
    rw [Backend.stage_of_init hinit]
    exact Nat.le_refl _
  · next hready =>
    cases h
    rcases hasReadyBackend_iff.mp (by simpa using hready) with ⟨b₁, hb₁, hstage⟩
    cases hb₁
    exact ⟨_, hacquire, refl _, hstage, rfl⟩

omit [Scalar α] in
theorem booted_of_equip {e e' : Engine α} (h : equip.outcome e = (.ok (), e')) : e'.Booted := by
  rcases equip_eq_ok h with ⟨b, b', -, hstands, hready, rfl⟩
  refine ⟨b', rfl, hready, fun s hs => ?_⟩
  rw [hstands.settings, b.settings_configure] at hs
  rcases Option.map_eq_some_iff.mp hs with ⟨_, -, rfl⟩
  rfl

/-- Targets can be renewed only at a rate that can be used. -/
theorem usable_of_renewTargets {cells : Nat} {e e' : Engine α} (hs : e.Suited)
    (h : (renewTargets cells).outcome e = (.ok (), e')) (htargets : e.targets.isSome = true) :
    ∃ x, e.rate.toFloat = .ok x := by
  rcases hs htargets with ⟨b, hb, hdense⟩
  rcases dense_of_settings hdense with ⟨settings, held, hmachine⟩
  have htrain : e.canTrain = true := by
    rw [canTrain, hb, Option.map_some, Backend.trainable_of_dense hmachine]
    rfl
  rw [renewTargets, outcome_get_bind, htargets, htrain, Bool.and_self, if_pos rfl,
    outcome_set_bind] at h
  rcases outcome_onBackend_eq_ok h with ⟨b₁, b', -, hrun, -⟩
  rcases Backend.prepareTraining_cases (.ok (blankTargets cells)) e.rate.toFloat b₁ with
    ⟨f, _, hfails, -⟩ | ⟨_, _, _, x, -, hx, -, -⟩
  · rw [hfails] at hrun
    cases hrun
  · exact ⟨x, hx⟩

/-- Installing a graph on a backend that has just been prepared leaves the engine primed. -/
theorem primed_of_install {c : Compiled α} {e e' : Engine α} (he : e.Booted) (hs : e.Suited)
    (hstage : ∀ b, e.backend = some b → b.stage ≠ .trainable)
    (h : (install c).outcome e = (.ok (), e')) : e'.Primed := by
  rw [install, outcome_modify_bind, outcome_get_bind] at h
  rcases outcome_bind_eq_ok h with ⟨rows, t, hrows, h⟩
  cases (outcome_of_eq_ok hrows).2
  rcases outcome_bind_eq_ok h with ⟨cells, t, hcells, h⟩
  cases (outcome_of_eq_ok hcells).2
  rw [outcome_modify_bind] at h
  rw [← after_of_outcome h]
  refine primed_renewTargets cells _ ⟨he, usable_of_renewTargets hs h, fun b hb htrainable => ?_⟩
  exact absurd htrainable (hstage b hb)

theorem primed_of_compile {e e' : Engine α} {c : Compiled α} (he : e.Booted) (hs : e.Suited)
    (h : compile.outcome e = (.ok c, e')) : e'.Primed := by
  rw [outcome_compile_of_ready he.hasReadyBackend] at h
  rcases outcome_bind_eq_ok h with ⟨c₁, t, hgraph, h⟩
  cases (outcome_of_eq_ok hgraph).2
  rcases outcome_bind_eq_ok h with ⟨_, t, hload, h⟩
  rcases outcome_bind_eq_ok h with ⟨_, u, hinstall, h⟩
  cases h
  have hsuited := suited_load c e hs
  rcases load_or_abandon c e with ⟨b, b', hb, hstands, hstage, hrun⟩ | ⟨f, backend, -, hrun⟩
  · rw [hload] at hrun
    cases hrun
    rw [after_of_outcome hload] at hsuited
    have hbooted : Booted { e with backend := some b' } := he.of_stands hb hstands rfl rfl
    refine primed_of_install hbooted hsuited (fun b₁ hb₁ => ?_) hinstall
    cases hb₁
    rw [hstage]
    exact (by decide : Stage.compiled ≠ Stage.trainable)
  · rw [hload] at hrun
    cases hrun

theorem primed_of_init {e : Engine α} (hs : e.Suited) (h : init.succeeds e = true) :
    (init.after e).Primed := by
  rcases outcome_of_succeeds h with ⟨p, hrun⟩
  generalize init.after e = e' at hrun ⊢
  rw [init] at hrun
  rcases outcome_bind_eq_ok hrun with ⟨_, t, hequip, hrun⟩
  rcases outcome_bind_eq_ok hrun with ⟨_, u, hread, hrun⟩
  rcases outcome_bind_eq_ok hrun with ⟨c, v, hcompile, hrun⟩
  have hprojected : v = projection.after v := respects_projection v
  rw [after_of_outcome hrun] at hprojected
  rw [← hprojected]
  have hbooted := editing_booted.readGraph t (booted_of_equip hequip)
  have hsuited := moving_suited.readGraph t (after_of_outcome hequip ▸ moving_suited.equip e hs)
  rw [after_of_outcome hread] at hbooted hsuited
  exact primed_of_compile hbooted hsuited hcompile

/--
What an engine, on whatever stores and backend, can come to from its creation on, and whether it
has been initialised on the way.
-/
inductive Operated : Bool → Engine α → Prop
  | created (host : Host) (settings : EngineSettings) (training : TrainingSettings)
      (neuronStore : Store Neuron) (synapseStore : Store Synapse) (backend : Option (Backend α)) :
      Operated false (create host settings training neuronStore synapseStore backend)
  | done {initialised : Bool} {e : Engine α} (h : Operated initialised e) (d : Deed α) :
      Operated (initialised || (d.initialises && d.perform.succeeds e)) (d.perform.after e)

theorem Operated.suited {initialised : Bool} {e : Engine α} (h : e.Operated initialised) :
    e.Suited := by
  induction h with
  | created =>
      intro htargets
      cases htargets
  | done h d ih => exact d.suited_perform _ ih

theorem Operated.primed {initialised : Bool} {e : Engine α} (h : e.Operated initialised)
    (hinit : initialised = true) : e.Primed := by
  induction h with
  | created => cases hinit
  | @done initialised e h d ih =>
      cases initialised with
      | true => exact d.primed_perform e (ih rfl)
      | false =>
          -- Before this deed the engine was not primed, so the deed is the first initialisation.
          rw [Bool.false_or, Bool.and_eq_true] at hinit
          cases d with
          | openLoop rate => cases hinit.1
          | act a =>
              cases a with
              | init =>
                  rw [Deed.perform, Action.perform, succeeds_void] at hinit
                  rw [Deed.perform, Action.perform, after_void]
                  exact primed_of_init h.suited hinit.2
              | compile | close | addNeuron | addSynapse | deleteNeuron | deleteSynapse
              | updateSynapseWeight | importGraph | exportGraph | syncWeights | injectInput | tick
              | prepareTraining | trainTick | setTraining | attend => cases hinit.1

/-!
## Compiling where there is room
-/

/--
There is room for a network of some size: for the staged input of the engine, and for the
buffers of a dense backend.
-/
structure HasRoom (size : Nat) (e : Engine α) : Prop where
  staged : ∃ rows cells, e.training.microBatchSize.toInt = .ok rows ∧
    Value.heldLength e.memory Scalar.bytes (size * rows) = .ok cells
  buffers : ∀ b, e.backend = some b → b.settings.isSome = true →
    ∃ rows : Nat, e.training.microBatchSize = .whole rows ∧
      Machine.hasRoom e.memory size rows = true

theorem compiled_install (c : Compiled α) (e : Engine α) :
    ((install c).after e).compiled = some c := by
  have hrenew : ∀ cells, Respects (Fixes compiled) (renewTargets (α := α) cells) := by
    refine fun cells => respects_get_bind fun e => ?_
    split
    · rw [after, outcome_set_bind]
      exact respects_onBackend (R := Fixes compiled) (fun _ _ _ => rfl) _
    · exact refl e
  rw [install, after, outcome_modify_bind, outcome_get_bind]
  refine Respects.bind (R := Fixes compiled) (respects_of _) (fun rows => ?_) _
  refine Respects.bind (R := Fixes compiled) (respects_of _) fun cells => ?_
  exact Respects.bind (R := Fixes compiled) (respects_modify fun _ => rfl) fun _ => hrenew cells

/-- A compilation gives up the compiled graph, or leaves that of the cache, even if it fails. -/
theorem compiled_of_compile {e : Engine α} (hready : e.hasReadyBackend = true)
    (hname : Compiled.nameable e.neurons e.synapses = true) :
    (compile.after e).compiled = some (Compiled.flatten e.neurons e.synapses) ∨
      (∃ f, (compile.outcome e).1 = .error f) ∧ (compile.after e).compiled = none := by
  rw [after, outcome_compile_of_nameable hready hname]
  rcases load_or_abandon (Compiled.flatten e.neurons e.synapses) e with
    ⟨b, b', -, -, -, hrun⟩ | ⟨f, backend, -, hrun⟩
  · rw [outcome_bind_of_ok hrun]
    exact Or.inl (bind_induction
      (I := fun t : Engine α => t.compiled = some (Compiled.flatten e.neurons e.synapses))
      (compiled_install _ { e with backend := some b' }) fun _ _ ht => ht)
  · rw [outcome_bind_of_error hrun]
    exact Or.inr ⟨⟨f, rfl⟩, rfl⟩

/-- Without targets there is nothing to renew when a graph is installed. -/
theorem outcome_install_of_untargeted {c : Compiled α} {rows : Int} {cells : Nat} {e : Engine α}
    (htargets : e.targets = none) (hrows : e.training.microBatchSize.toInt = .ok rows)
    (hcells : Value.heldLength e.memory Scalar.bytes (c.size * rows) = .ok cells) :
    (install c).outcome e =
      (.ok (), { e with compiled := some c, staged := Scalar.zeros cells, trained := false }) := by
  rw [install, outcome_modify_bind, outcome_get_bind]
  simp only [hrows, outcome_of_ok_bind, hcells, outcome_modify_bind, renewTargets,
    outcome_get_bind, htargets, Option.isSome_none, Bool.false_and, Bool.false_eq_true, if_false]
  rfl

/-- An operation graph is built of whatever is compiled, as far as its tags are known. -/
theorem load_of_graph {c : Compiled α} {claims : Bool} {built : Option (OpGraph α)}
    {b : Backend α} {codes : List Activation} {e : Engine α} (hb : e.backend = some b)
    (hmachine : b.machine = .graph claims built) (hready : .ready ≤ b.stage)
    (hweights : c.weights.size = c.size * c.size) (hbiases : c.biases.size = c.size)
    (hlength : c.activations.length = c.size)
    (hcodes : c.activations.mapM Activation.ofValue = .ok codes) :
    ∃ b', (load c).outcome e = (.ok (), { e with backend := some b' }) ∧ b'.stage = .compiled ∧
      b'.machine = .graph claims (some (OpGraph.build c.size c.weights c.biases codes)) ∧
      b'.host = b.host := by
  have hcheck := Backend.checkNetwork_of_sizes e.training.microBatchSize_not_less hweights hbiases
    hlength hcodes b.host.memory
  have hprepare := Backend.outcome_prepare_of_load hcheck (Nat.not_lt.mpr hready)
    (by rw [hmachine]; rfl)
  rw [load, outcome_get_bind, outcome_onBackend hb, hprepare]
  exact ⟨_, rfl, rfl, rfl, rfl⟩

theorem compile_succeeds_of_graph {claims : Bool} {built : Option (OpGraph α)} {b : Backend α}
    {rows : Int} {cells : Nat} {codes : List Activation} {e : Engine α}
    (hb : e.backend = some b) (hmachine : b.machine = .graph claims built)
    (hready : .ready ≤ b.stage) (htargets : e.targets = none)
    (hname : Compiled.nameable e.neurons e.synapses = true)
    (hrows : e.training.microBatchSize.toInt = .ok rows)
    (hcells : Value.heldLength e.memory Scalar.bytes (e.neurons.length * rows) = .ok cells)
    (hcodes : (e.neurons.map Neuron.activation).mapM Activation.ofValue = .ok codes) :
    compile.succeeds e = true := by
  rcases load_of_graph (c := Compiled.flatten e.neurons e.synapses) hb hmachine hready
    (Compiled.size_weights_flatten _ _) (Compiled.size_biases_flatten _ _) (List.length_map _)
    hcodes with ⟨b', hload, -, -, hhost⟩
  have hmemory : ({ e with backend := some b' } : Engine α).memory = e.memory := by
    rw [memory_eq hb, memory_eq rfl, hhost]
  rw [← hmemory] at hcells
  have hinstall := outcome_install_of_untargeted (c := Compiled.flatten e.neurons e.synapses)
    (e := { e with backend := some b' }) htargets hrows hcells
  have hready' := hasReadyBackend_iff.mpr ⟨b, hb, hready⟩
  apply succeeds_of_ok (b := Compiled.flatten e.neurons e.synapses)
  rw [outcome_compile_of_nameable hready' hname,
    outcome_bind_of_ok (outcome_onFault_of_ok hload abandon), outcome_bind_of_ok hinstall]
  rfl

/-- A primed engine compiles a graph with known activation tags where there is room for it. -/
theorem compile_succeeds_of_hasRoom {codes : List Activation} {e : Engine α} (h : e.Primed)
    (hs : e.Suited) (hname : Compiled.nameable e.neurons e.synapses = true)
    (hcodes : (e.neurons.map Neuron.activation).mapM Activation.ofValue = .ok codes)
    (hroom : e.HasRoom e.neurons.length) : compile.succeeds e = true := by
  rcases h.booted with ⟨b, hb, hready, hsettings⟩
  cases hmachine : b.machine with
  | dense settings held =>
      have hdense := Backend.settings_of_dense hmachine
      rw [hsettings settings hdense] at hmachine
      rcases hroom.buffers b hb (by rw [hdense]; rfl) with ⟨rows, hbatch, hrows⟩
      exact compile_succeeds ⟨⟨b, hb, ⟨held, hmachine⟩, hready⟩, h.targets⟩ hname hbatch hrows
        hcodes
  | graph claims built =>
      -- Only a dense backend takes targets, so there is nothing to renew after the graph.
      have htargets : e.targets = none := by
        rw [← Option.not_isSome_iff_eq_none]
        intro hsome
        rcases hs hsome with ⟨b₁, hb₁, hdense⟩
        rw [hb] at hb₁
        cases hb₁
        rw [Backend.settings, hmachine] at hdense
        cases hdense
      rcases hroom.staged with ⟨rows, cells, hrows, hcells⟩
      exact compile_succeeds_of_graph hb hmachine hready htargets hname hrows hcells hcodes

end Engine
end Plexus
