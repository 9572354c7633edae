import Plexus.Proofs.Engine.Moves
import Plexus.Proofs.Engine.Sync

/-!
# Running a coherent engine

Ticks, staged inputs, targets and subscribers leave the graph of a coherent engine and the
parameters of its network alone.  Only a training tick that succeeds changes parameters, and
it marks the engine as trained.
-/

namespace Plexus
namespace Engine

open Attempt
open Value (IdClass)

variable {α β γ : Type} {P : Value → Prop}

/-- What does not change while a graph is only run. -/
structure Calm (e e' : Engine α) : Prop where
  neurons : e'.neurons = e.neurons
  synapses : e'.synapses = e.synapses
  training : e'.training = e.training
  compiled : e'.compiled = e.compiled
  trained : e'.trained = e.trained
  parameters : e'.parameters = e.parameters

theorem Calm.refl (e : Engine α) : e.Calm e := ⟨rfl, rfl, rfl, rfl, rfl, rfl⟩

theorem Calm.trans {e₁ e₂ e₃ : Engine α} (h : e₁.Calm e₂) (h' : e₂.Calm e₃) : e₁.Calm e₃ where
  neurons := h'.neurons.trans h.neurons
  synapses := h'.synapses.trans h.synapses
  training := h'.training.trans h.training
  compiled := h'.compiled.trans h.compiled
  trained := h'.trained.trans h.trained
  parameters := h'.parameters.trans h.parameters

theorem Calm.size_eq {e e' : Engine α} (h : e.Calm e') : e'.size = e.size := by
  rw [size, size, h.compiled]

theorem Calm.batch_eq {e e' : Engine α} (h : e.Calm e') : e'.batch = e.batch := by
  rw [batch, batch, h.training]

theorem Fits.engineSize_eq {c : Compiled α} {rows : Nat} {a : Arena α} {b : Backend α}
    {e : Engine α} (h : e.Fits c rows a b) (hc : e.compiled = some c) :
    e.size = b.size := by
  rw [Engine.size, hc, Option.map_some, Option.getD_some, h.backendSize]

/-- A coherent engine that another one has come to by being run. -/
structure Rested (P : Value → Prop) (e e' : Engine α) : Prop where
  coherent : e'.Coherent P
  calm : e.Calm e'

theorem rested_self {e : Engine α} (h : e.Coherent P) : e.Rested P e := ⟨h, Calm.refl e⟩

/-- A step that at most runs an engine that is coherent and compiled. -/
def Rests (P : Value → Prop) (step : Attempt (Engine α) β) : Prop :=
  ∀ e : Engine α, e.Coherent P → e.compiled.isSome = true → e.Rested P (step.after e)

theorem Rests.bind {step : Attempt (Engine α) β} {next : β → Attempt (Engine α) γ}
    (hstep : Rests P step) (hnext : ∀ b, Rests P (next b)) :
    Rests P (step >>= next) := by
  intro e he hc
  refine bind_induction (hstep e he hc) ?_
  intro b t ht
  have h := hnext b t ht.coherent (ht.calm.compiled.symm ▸ hc)
  exact ⟨h.coherent, ht.calm.trans h.calm⟩

theorem rests_of (r : Except Fault β) : Rests P (Attempt.of r : Attempt (Engine α) β) :=
  fun _ he _ => rested_self he

theorem rests_pure (b : β) : Rests P (pure b : Attempt (Engine α) β) :=
  fun _ he _ => rested_self he

/-- What is done with the state that was read may depend on that state. -/
theorem rests_get_bind {next : Engine α → Attempt (Engine α) β}
    (h : ∀ e : Engine α, e.Coherent P → e.compiled.isSome = true →
      e.Rested P ((next e).after e)) :
    Rests P (get >>= next) := by
  intro e he hc
  rw [after, outcome_get_bind]
  exact h e he hc

/-!
## Changes beside the network
-/

/-- What coherence does not depend on may change. -/
theorem Coherent.congr {e e' : Engine α} (he : e.Coherent P) (hgraph : e.SameGraph e')
    (hbackend : e'.backend = e.backend) (hcompiled : e'.compiled = e.compiled)
    (htargets : e'.targets = e.targets) (hstaged : e'.staged.size = e.staged.size)
    (hrate : e.targets.isSome = true → ∃ x, e'.rate.toFloat = .ok x) :
    e'.Coherent P where
  stocked := by
    rw [hgraph.neurons, hgraph.synapses]
    exact he.stocked.of_stores hgraph.neuronStore hgraph.synapseStore
  equipped := by
    refine ⟨?_, ?_⟩
    · rw [hbackend, hgraph.training]
      exact he.equipped.backend
    · rw [htargets]
      exact hrate
  fits := by
    intro c hc
    rw [hcompiled] at hc
    rcases he.fits c hc with ⟨rows, a, b, h⟩
    refine ⟨rows, a, b, h.toIndexes.of_ids ?_, hbackend.trans h.backend, ?_, h.backendSize, ?_, ?_,
      hstaged.trans h.staged, htargets.trans h.targets⟩
    · rw [hgraph.neurons]
    · rw [hgraph.training]
      exact h.holds
    · rw [hgraph.training]
      exact h.batch
    · rw [hgraph.neurons]
      exact h.tags

theorem Coherent.of_fits {c : Compiled α} {rows : Nat} {a : Arena α} {b : Backend α}
    {e : Engine α} (hs : e.Stocked P e.neurons e.synapses)
    (hrate : e.targets.isSome = true → ∃ x, e.rate.toFloat = .ok x) (hc : e.compiled = some c)
    (h : e.Fits c rows a b) :
    e.Coherent P where
  stocked := hs
  equipped := ⟨⟨b, h.backend, h.holds.equipped⟩, hrate⟩
  fits := by
    intro d hd
    rw [hc] at hd
    cases hd
    exact ⟨rows, a, b, h⟩

theorem Fits.withArena {c : Compiled α} {rows : Nat} {a a' : Arena α} {b : Backend α}
    {e : Engine α} (h : e.Fits c rows a b) (hcodes : a'.codes = a.codes)
    (htargets : a'.training.map TrainingBuffers.targets =
      a.training.map TrainingBuffers.targets)
    (hprecision : a'.precision = a.precision) :
    Fits c rows a' (b.withArena e.training a')
      { e with backend := some (b.withArena e.training a') } where
  toIndexes := h.toIndexes
  backend := rfl
  holds := h.holds.replace htargets hprecision
  backendSize := h.backendSize
  batch := h.batch
  tags := by
    rw [hcodes]
    exact h.tags
  staged := h.staged
  targets := by
    rw [htargets]
    exact h.targets

theorem Fits.withTraining {c : Compiled α} {rows : Nat} {a : Arena α} {b : Backend α}
    {e : Engine α} {t : TrainingBuffers α} (h : e.Fits c rows a b)
    (ht : t.targets.size = b.size * rows) :
    Fits c rows { a with training := some t } (b.withTraining e.training a t)
      { e with backend := some (b.withTraining e.training a t), targets := some t.targets } where
  toIndexes := h.toIndexes
  backend := rfl
  holds := h.holds.prepared ht
  backendSize := h.backendSize
  batch := h.batch
  tags := h.tags
  staged := h.staged
  targets := rfl

/-- An engine whose arena changes stays coherent; it is calm if the parameters stay. -/
theorem Coherent.withArena {c : Compiled α} {rows : Nat} {a a' : Arena α} {b : Backend α}
    {e : Engine α} (he : e.Coherent P) (hc : e.compiled = some c) (h : e.Fits c rows a b)
    (hcodes : a'.codes = a.codes)
    (htargets : a'.training.map TrainingBuffers.targets =
      a.training.map TrainingBuffers.targets)
    (hprecision : a'.precision = a.precision) :
    Coherent P { e with backend := some (b.withArena e.training a') } :=
  Coherent.of_fits ⟨he.stocked.neuronStore, he.stocked.synapseStore, he.stocked.neurons,
    he.stocked.synapses, he.stocked.ends⟩ he.equipped.rate hc
    (h.withArena hcodes htargets hprecision)

theorem calm_withArena {c : Compiled α} {rows : Nat} {a a' : Arena α} {b : Backend α}
    {e : Engine α} (h : e.Fits c rows a b) (hweights : a'.weights = a.weights)
    (hbiases : a'.biases = a.biases) :
    e.Calm { e with backend := some (b.withArena e.training a') } := by
  refine ⟨rfl, rfl, rfl, rfl, rfl, ?_⟩
  rw [h.parameters_eq, ← hweights, ← hbiases]
  rfl

/-- An engine that gets other targets stays coherent and calm. -/
theorem rested_withTraining {c : Compiled α} {rows : Nat} {a : Arena α} {b : Backend α}
    {e : Engine α} {t : TrainingBuffers α} (he : e.Coherent P) (hc : e.compiled = some c)
    (h : e.Fits c rows a b) (ht : t.targets.size = b.size * rows)
    (hrate : ∃ x, e.rate.toFloat = .ok x) :
    e.Rested P { e with
      backend := some (b.withTraining e.training a t), targets := some t.targets } := by
  refine ⟨Coherent.of_fits ⟨he.stocked.neuronStore, he.stocked.synapseStore, he.stocked.neurons,
    he.stocked.synapses, he.stocked.ends⟩ (fun _ => hrate) hc (h.withTraining ht), ?_⟩
  refine ⟨rfl, rfl, rfl, rfl, rfl, ?_⟩
  rw [h.parameters_eq]
  rfl

theorem Fits.batch_eq {c : Compiled α} {rows : Nat} {a : Arena α} {b : Backend α} {e : Engine α}
    (h : e.Fits c rows a b) :
    e.batch = rows := by
  rw [Engine.batch, h.batch, Number.count_whole, Int.toNat_natCast]

theorem Fits.withAudience {c : Compiled α} {rows : Nat} {a : Arena α} {b : Backend α}
    {e : Engine α} (h : e.Fits c rows a b) (audience : Audience) :
    Fits c rows a b { e with audience } :=
  ⟨h.toIndexes, h.backend, h.holds, h.backendSize, h.batch, h.tags, h.staged, h.targets⟩

theorem rested_withAudience {e : Engine α} (he : e.Coherent P) (audience : Audience) :
    e.Rested P { e with audience } :=
  ⟨he.congr ⟨rfl, rfl, rfl, rfl, rfl⟩ rfl rfl rfl rfl he.equipped.rate,
    rfl, rfl, rfl, rfl, rfl, rfl⟩

/-- Whatever subscribers do, they do it to the audience. -/
theorem rests_onAudience (step : Attempt Audience β) :
    Rests P (onAudience step : Attempt (Engine α) β) := by
  intro e he _
  have hrun : (onAudience step : Attempt (Engine α) β).outcome e =
      ((step.outcome e.audience).1, { e with audience := (step.outcome e.audience).2 }) :=
    outcome_onPart _ _ step e
  rw [after_of_outcome hrun]
  exact rested_withAudience he _

/-!
## Closing
-/

/-- A closed engine keeps its graph and has nothing compiled. -/
theorem coherent_close {e : Engine α} (he : e.Coherent P) :
    ∃ e', close.outcome e = (.ok (), e') ∧ e'.Coherent P ∧ e'.compiled = none := by
  rcases he.equipped.backend with ⟨b, hb, hequipped⟩
  refine ⟨_, rfl, ⟨?_, ⟨⟨b.release, ?_, hequipped.release⟩, ?_⟩, ?_⟩, rfl⟩
  · exact ⟨he.stocked.neuronStore, he.stocked.synapseStore, he.stocked.neurons,
      he.stocked.synapses, he.stocked.ends⟩
  · simp only [updateBackend, hb, Option.map_some]
  · intro htargets
    cases htargets
  · intro c hc
    cases hc

/-!
## Preparing training
-/

theorem outcome_requireCompiled {c : Compiled α} {rows : Nat} {a : Arena α} {b : Backend α}
    {e : Engine α} (hc : e.compiled = some c) (h : e.Fits c rows a b) (operation : String) :
    (requireCompiled operation).outcome e = (.ok (), e) := by
  rw [requireCompiled, outcome_get_bind, hc, h.backend]
  rfl

theorem outcome_requireTrainable {c : Compiled α} {rows : Nat} {a : Arena α} {b : Backend α}
    {e : Engine α} (hc : e.compiled = some c) (h : e.Fits c rows a b) (operation : String) :
    (requireTrainable operation).outcome e = (.ok (), e) := by
  rw [requireTrainable, outcome_bind_of_ok (outcome_requireCompiled hc h operation),
    outcome_get_bind, h.backend]
  dsimp only
  rw [Backend.trainable_of_dense h.holds.machine]
  rfl

/-- A step that begins with a check fails before anything is compiled. -/
def Checks (step : Attempt (Engine α) β) : Prop :=
  ∀ e : Engine α, e.compiled = none → ∃ f, step.outcome e = (.error f, e)

theorem Checks.bind {step : Attempt (Engine α) β} (h : Checks step)
    (next : β → Attempt (Engine α) γ) :
    Checks (step >>= next) := by
  intro e hc
  rcases h e hc with ⟨f, hrun⟩
  exact ⟨f, outcome_bind_of_error hrun next⟩

theorem checks_requireCompiled (operation : String) :
    Checks (requireCompiled operation : Attempt (Engine α) Unit) := by
  intro e hc
  refine ⟨.engineNotInitialized operation, ?_⟩
  rw [requireCompiled, outcome_get_bind, hc]
  rfl

theorem checks_requireTrainable (operation : String) :
    Checks (requireTrainable operation : Attempt (Engine α) Unit) :=
  (checks_requireCompiled operation).bind _

theorem Rests.rested {step : Attempt (Engine α) β} {e : Engine α} (h : Rests P step)
    (hchecks : Checks step) (he : e.Coherent P) :
    e.Rested P (step.after e) := by
  cases hc : e.compiled with
  | none =>
      rcases hchecks e hc with ⟨f, hrun⟩
      rw [after_of_outcome hrun]
      exact rested_self he
  | some c => exact h e he (by rw [hc]; rfl)

theorem rests_requireTrainable (operation : String) :
    Rests P (requireTrainable operation : Attempt (Engine α) Unit) := by
  intro e he hc
  rcases he.exists_fits hc with ⟨c, rows, a, b, hc, hfits⟩
  rw [after_of_outcome (outcome_requireTrainable hc hfits operation)]
  exact rested_self he

theorem rests_takeRate (rate : Option (Except Fault Float)) :
    Rests P (takeRate rate : Attempt (Engine α) Unit) := by
  cases rate with
  | none => exact rests_pure ()
  | some r =>
      refine (rests_of r).bind ?_
      intro x e he _
      exact ⟨he.congr ⟨rfl, rfl, rfl, rfl, rfl⟩ rfl rfl rfl rfl
        (fun _ => ⟨x, Number.toFloat_real x⟩), rfl, rfl, rfl, rfl, rfl, rfl⟩

/-- Setting targets in the backend fails, or it leaves the targets that were given. -/
theorem setTargets_cases {c : Compiled α} {rows : Nat} {a : Arena α} {b : Backend α}
    {e : Engine α} (h : e.Fits c rows a b) (targets : Operand α) :
    (∃ f, (onBackend (Backend.setTargets targets) >>= fun _ => keepTargets targets).outcome e =
        (.error f, e)) ∨
      ∃ t, targets = .ok t.targets ∧ t.targets.size = b.size * rows ∧
        (onBackend (Backend.setTargets targets) >>= fun _ => keepTargets targets).outcome e =
          (.ok (), { e with
            backend := some (b.withTraining e.training a t), targets := some t.targets }) := by
  rw [outcome_bind, outcome_onBackend h.backend]
  rcases h.holds.setTargets_cases targets with ⟨f, hf⟩ | ⟨ts, t, rfl, rfl, hts, hok⟩
  · rw [hf, ← h.backend]
    exact Or.inl ⟨f, rfl⟩
  · rw [hok]
    exact Or.inr ⟨t, rfl, hts, rfl⟩

variable [Scalar α]

/-- Preparing training in the backend fails, or it leaves the targets that were given. -/
theorem supervise_cases {c : Compiled α} {rows : Nat} {a : Arena α} {b : Backend α}
    {e : Engine α} (h : e.Fits c rows a b) (targets : Operand α) :
    (∃ f, (supervise targets).outcome e = (.error f, e)) ∨
      ∃ t, targets = .ok t.targets ∧ t.targets.size = b.size * rows ∧
        (∃ x, e.rate.toFloat = .ok x) ∧
        (supervise targets).outcome e = (.ok (), { e with
          backend := some (b.withTraining e.training a t), targets := some t.targets }) := by
  rw [supervise, outcome_get_bind, outcome_bind, outcome_onBackend h.backend]
  rcases h.holds.prepareTraining_cases targets e.rate.toFloat with
    ⟨f, hf⟩ | ⟨ts, t, rfl, rfl, hts, hrate, hok⟩
  · rw [hf, ← h.backend]
    exact Or.inl ⟨f, rfl⟩
  · rw [hok]
    exact Or.inr ⟨t, rfl, hts, hrate, rfl⟩

theorem rests_supervise (targets : Operand α) :
    Rests P (supervise targets : Attempt (Engine α) Unit) := by
  intro e he hc
  rcases he.exists_fits hc with ⟨c, rows, a, b, hc, hfits⟩
  rcases supervise_cases hfits targets with ⟨f, hrun⟩ | ⟨t, -, ht, hrate, hrun⟩
  · rw [after_of_outcome hrun]
    exact rested_self he
  · rw [after_of_outcome hrun]
    exact rested_withTraining he hc hfits ht hrate

theorem rests_prepareTraining (targets : Operand α) (rate : Option (Except Fault Float)) :
    Rests P (prepareTraining targets rate : Attempt (Engine α) Unit) := by
  refine (rests_requireTrainable _).bind fun _ => ?_
  exact (rests_takeRate rate).bind fun _ => rests_supervise targets

/-!
## Ticks
-/

/-- A forward tick on an input that fits. -/
theorem outcome_tick {c : Compiled α} {rows : Nat} {a : Arena α} {b : Backend α} {e : Engine α}
    {inputs : Option (Operand α)} {xs : Array α} (hc : e.compiled = some c)
    (h : e.Fits c rows a b) (hinputs : inputs.getD (.ok e.staged) = .ok xs)
    (hxs : xs.size = c.size * rows) :
    (tick inputs).outcome e =
      (.ok (a.forward c.size rows xs).output,
        { e with backend := some (b.withArena e.training (a.forward c.size rows xs)) }) := by
  rw [← h.backendSize] at hxs
  rw [tick, outcome_bind_of_ok (outcome_requireCompiled hc h _), outcome_get_bind, hinputs,
    outcome_onBackend h.backend, h.holds.forward_of_fits hxs, h.backendSize]

theorem tick_cases {c : Compiled α} {rows : Nat} {a : Arena α} {b : Backend α} {e : Engine α}
    (hc : e.compiled = some c) (h : e.Fits c rows a b) (inputs : Option (Operand α)) :
    (∃ f, (tick inputs).outcome e = (.error f, e)) ∨
      ∃ xs, inputs.getD (.ok e.staged) = .ok xs ∧ xs.size = c.size * rows ∧
        (tick inputs).outcome e =
          (.ok (a.forward c.size rows xs).output,
            { e with backend := some (b.withArena e.training (a.forward c.size rows xs)) }) := by
  rcases h.holds.forward_cases (inputs.getD (.ok e.staged)) with ⟨f, hf⟩ | ⟨xs, hxs, hsize, -⟩
  · apply Or.inl
    refine ⟨f, ?_⟩
    rw [tick, outcome_bind_of_ok (outcome_requireCompiled hc h _), outcome_get_bind,
      outcome_onBackend h.backend, hf, ← h.backend]
  · rw [h.backendSize] at hsize
    exact Or.inr ⟨xs, hxs, hsize, outcome_tick hc h hxs hsize⟩

theorem rests_tick (inputs : Option (Operand α)) :
    Rests P (tick inputs : Attempt (Engine α) (Array α)) := by
  intro e he hc
  rcases he.exists_fits hc with ⟨c, rows, a, b, hc, hfits⟩
  rcases tick_cases hc hfits inputs with ⟨f, hrun⟩ | ⟨xs, -, -, hrun⟩
  · rw [after_of_outcome hrun]
    exact rested_self he
  · rw [after_of_outcome hrun]
    exact ⟨he.withArena hc hfits rfl rfl rfl, calm_withArena hfits rfl rfl⟩

theorem size_stage (size batch : Nat) (staged values : Array α) :
    (stage size batch staged values).size = batch * size := by
  simp [stage]

/-- Staged inputs keep their length. -/
theorem rests_injectInput (values : Operand α) :
    Rests P (injectInput values : Attempt (Engine α) Unit) := by
  intro e he _
  rcases injectInput_cases values e with ⟨f, hrun⟩ | ⟨xs, -, hlength, hrun⟩
  · rw [after_of_outcome hrun]
    exact rested_self he
  · rw [after_of_outcome hrun]
    have hstaged := (size_stage e.size e.batch e.staged xs).trans hlength.symm
    exact ⟨he.congr ⟨rfl, rfl, rfl, rfl, rfl⟩ rfl rfl rfl hstaged he.equipped.rate,
      rfl, rfl, rfl, rfl, rfl, rfl⟩

/-- Targets of a training tick are refused, or the backend and the engine take them over. -/
theorem retarget_cases {c : Compiled α} {rows : Nat} {a : Arena α} {b : Backend α}
    {e : Engine α} (he : e.Equipped) (hc : e.compiled = some c) (h : e.Fits c rows a b)
    (targets : Operand α) :
    (∃ f, (retarget (some targets)).outcome e = (.error f, e)) ∨
      ∃ t, targets = .ok t.targets ∧ t.targets.size = b.size * rows ∧
        (∃ x, e.rate.toFloat = .ok x) ∧
        (retarget (some targets)).outcome e = (.ok (), { e with
          backend := some (b.withTraining e.training a t), targets := some t.targets }) := by
  rw [retarget, outcome_get_bind]
  simp only [h.backend]
  by_cases hstage : b.stage < .trainable
  · have hprepare : (prepareTraining targets none).outcome e = (supervise targets).outcome e := by
      rw [prepareTraining, outcome_bind_of_ok (outcome_requireTrainable hc h _)]
      exact outcome_pure_bind () _ e
    rw [if_pos hstage, hprepare]
    exact supervise_cases h targets
  · rw [if_neg hstage]
    rcases setTargets_cases h targets with hfails | ⟨t, htargets, ht, hrun⟩
    · exact Or.inl hfails
    · -- Training was prepared before targets could be set, so the rate is usable.
      have hsome : e.targets.isSome = true := by
        rw [h.targets, Option.isSome_map]
        exact h.holds.isSome_training hstage
      exact Or.inr ⟨t, htargets, ht, he.rate hsome, hrun⟩

theorem rests_retarget (targets : Option (Operand α)) :
    Rests P (retarget targets : Attempt (Engine α) Unit) := by
  cases targets with
  | none =>
      refine rests_get_bind ?_
      intro e he _
      dsimp only
      split
      · exact rested_self he
      · exact rested_self he
  | some ts =>
      intro e he hc
      rcases he.exists_fits hc with ⟨c, rows, a, b, hc, hfits⟩
      rcases retarget_cases he.equipped hc hfits ts with ⟨f, hrun⟩ | ⟨t, -, ht, hrate, hrun⟩
      · rw [after_of_outcome hrun]
        exact rested_self he
      · rw [after_of_outcome hrun]
        exact rested_withTraining he hc hfits ht hrate

/-!
## Training
-/

theorem checks_measure (inputs targets : Option (Operand α)) :
    Checks (measure inputs targets : Attempt (Engine α) α) :=
  (checks_requireTrainable _).bind _

/-- Up to the point where the backend trains, a training tick only runs the engine. -/
theorem rests_measure (inputs targets : Option (Operand α)) :
    Rests P (measure inputs targets : Attempt (Engine α) α) := by
  refine (rests_requireTrainable _).bind fun _ => (rests_retarget targets).bind fun _ => ?_
  refine (rests_tick inputs).bind fun outputs => rests_get_bind fun e he hc => ?_
  exact ((rests_of _).bind fun loss => (rests_onAudience _).bind fun _ => rests_pure loss) e he hc

/-- Whether the parameters that an engine runs are rounded to the precision of its settings. -/
def Rounded (e : Engine α) : Prop :=
  e.compiled.isSome = true → ∀ weights biases, e.parameters = some (weights, biases) →
    (∀ x ∈ weights, Scalar.Rounded e.training.basePrecision x) ∧
      ∀ x ∈ biases, Scalar.Rounded e.training.basePrecision x

theorem Rounded.of_calm {e e' : Engine α} (h : e.Rounded) (hcalm : e.Calm e') : e'.Rounded := by
  intro hc weights biases hparameters
  rw [hcalm.compiled] at hc
  rw [hcalm.parameters] at hparameters
  rw [hcalm.training]
  exact h hc weights biases hparameters

/-- Whatever training makes of rounded parameters is rounded. -/
theorem Rounded.withArena {c : Compiled α} {rows : Nat} {a a' : Arena α} {b : Backend α}
    {e : Engine α} (hrounded : e.Rounded) (hc : e.compiled = some c) (h : e.Fits c rows a b)
    (htrains : Backend.Trains a a') :
    Rounded { e with backend := some (b.withArena e.training a'), trained := true } := by
  rcases hrounded (by rw [hc]; rfl) _ _ h.parameters_eq with ⟨hweights, hbiases⟩
  intro _ weights biases hparameters
  cases hparameters
  constructor
  · intro x hx
    rcases htrains.weights x hx with hold | hnew
    · exact hweights x hold
    · rw [h.holds.precision] at hnew
      exact hnew
  · intro x hx
    rcases htrains.biases x hx with hold | hnew
    · exact hbiases x hold
    · rw [h.holds.precision] at hnew
      exact hnew

/-- Whether the network that an engine runs has no more parameters than its slots have. -/
def Bounded (e : Engine α) : Prop :=
  ∀ c weights biases, e.compiled = some c → e.parameters = some (weights, biases) →
    weights.size ≤ c.size * c.size ∧ biases.size ≤ c.size

omit [Scalar α] in
theorem Bounded.of_calm {e e' : Engine α} (h : e.Bounded) (hcalm : e.Calm e') : e'.Bounded := by
  intro c weights biases hc hparameters
  rw [hcalm.compiled] at hc
  rw [hcalm.parameters] at hparameters
  exact h c weights biases hc hparameters

/-- Training adds no parameters. -/
theorem Bounded.withArena {c : Compiled α} {rows : Nat} {a a' : Arena α} {b : Backend α}
    {e : Engine α} (hbounded : e.Bounded) (h : e.Fits c rows a b)
    (htrains : Backend.Trains a a') :
    Bounded { e with backend := some (b.withArena e.training a'), trained := true } := by
  intro d weights biases hd hparameters
  rcases hbounded d _ _ hd h.parameters_eq with ⟨hweights, hbiases⟩
  cases hparameters
  exact ⟨Nat.le_trans htrains.size_weights hweights, Nat.le_trans htrains.size_biases hbiases⟩

/-- An engine after a training tick: its parameters may have changed, and it is marked. -/
structure Trained (P : Value → Prop) (e e' : Engine α) : Prop where
  coherent : e'.Coherent P
  neurons : e'.neurons = e.neurons
  synapses : e'.synapses = e.synapses
  training : e'.training = e.training
  compiled : e'.compiled = e.compiled
  trained : e'.trained = true
  rounded : e.Rounded → e'.Rounded
  bounded : e.Bounded → e'.Bounded

/-- What is left to do once the loss is known. -/
theorem outcome_trainTick_of_measure {c : Compiled α} {rows : Nat} {a : Arena α} {b : Backend α}
    {e t : Engine α} {inputs targets : Option (Operand α)} {loss : α}
    (hrun : (measure inputs targets).outcome e = (.ok loss, t)) (h : t.Fits c rows a b)
    (deltas : Option (Operand α)) :
    ∃ r a', Backend.Trains a a' ∧
      ((∃ f, r = .error f) ∧ a'.weights = a.weights ∧ a'.biases = a.biases ∧
          (trainTick inputs targets deltas).outcome e =
            (r, { t with backend := some (b.withArena t.training a') }) ∨
        r = .ok loss ∧
          (trainTick inputs targets deltas).outcome e =
            (r, { t with backend := some (b.withArena t.training a'), trained := true })) := by
  rcases h.holds.trainTick_cases deltas with ⟨r, a', htrain, htrains, hr⟩
  have hstep := outcome_onBackend h.backend (Backend.trainTick deltas)
  rw [htrain] at hstep
  rcases hr with rfl | ⟨⟨f, rfl⟩, hweights, hbiases⟩
  · refine ⟨.ok loss, a', htrains, Or.inr ⟨rfl, ?_⟩⟩
    rw [trainTick, outcome_bind_of_ok hrun, outcome_bind_of_ok hstep]
    rfl
  · refine ⟨.error f, a', htrains, Or.inl ⟨⟨f, rfl⟩, hweights, hbiases, ?_⟩⟩
    rw [trainTick, outcome_bind_of_ok hrun, outcome_bind_of_error hstep]

/-- A training tick that fails leaves the parameters alone; one that succeeds is marked. -/
theorem trainTick_cases {e : Engine α} (he : e.Coherent P)
    (inputs targets deltas : Option (Operand α)) :
    e.Rested P ((trainTick inputs targets deltas).after e) ∨
      e.Trained P ((trainTick inputs targets deltas).after e) := by
  have hmeasure := (rests_measure inputs targets).rested (checks_measure inputs targets) he
  cases hrun : (measure inputs targets).outcome e with
  | mk r t =>
      rw [after_of_outcome hrun] at hmeasure
      cases r with
      | error f =>
          apply Or.inl
          rw [trainTick, after_of_outcome (outcome_bind_of_error hrun _)]
          exact hmeasure
      | ok loss =>
          cases hc : t.compiled with
          | none =>
              -- Without a compiled graph, not even the first check passes.
              rw [hmeasure.calm.compiled] at hc
              rcases checks_measure inputs targets e hc with ⟨f, hfails⟩
              rw [hfails] at hrun
              cases hrun
          | some c =>
              rcases hmeasure.coherent.fits c hc with ⟨rows, a, b, hfits⟩
              rcases outcome_trainTick_of_measure hrun hfits deltas with ⟨r, a', htrains,
                ⟨-, hweights, hbiases, htick⟩ | ⟨-, htick⟩⟩
              · apply Or.inl
                rw [after_of_outcome htick]
                exact ⟨hmeasure.coherent.withArena hc hfits htrains.codes htrains.targets
                  htrains.precision, hmeasure.calm.trans (calm_withArena hfits hweights hbiases)⟩
              · apply Or.inr
                rw [after_of_outcome htick]
                have hcoherent :=
                  hmeasure.coherent.withArena hc hfits htrains.codes htrains.targets
                    htrains.precision
                constructor
                · exact hcoherent.congr ⟨rfl, rfl, rfl, rfl, rfl⟩ rfl rfl rfl rfl
                    hcoherent.equipped.rate
                · exact hmeasure.calm.neurons
                · exact hmeasure.calm.synapses
                · exact hmeasure.calm.training
                · exact hmeasure.calm.compiled
                · rfl
                · intro hrounded
                  exact (hrounded.of_calm hmeasure.calm).withArena hc hfits htrains
                · intro hbounded
                  exact (hbounded.of_calm hmeasure.calm).withArena hfits htrains

/-!
## What a training tick runs on
-/

/-- The input and the targets that the backend holds. -/
def fed (e : Engine α) : Option (Array α × Array α) :=
  (e.backend.bind Backend.arena).bind fun a => a.training.map fun t => (a.input, t.targets)

omit [Scalar α] in
theorem fed_eq {a : Arena α} {b : Backend α} {e : Engine α} {xs ts : Array α}
    (hb : e.backend = some b) (ha : b.arena = some a) (hinput : a.input = xs)
    (htargets : a.training.map TrainingBuffers.targets = some ts) :
    e.fed = some (xs, ts) := by
  rcases Option.map_eq_some_iff.mp htargets with ⟨t, ht, rfl⟩
  simp only [fed, hb, ha, ht, hinput, Option.bind_some, Option.map_some]

/-- Once the loss is known, the backend holds the input and the targets that were given. -/
theorem measure_eq_ok {c : Compiled α} {rows : Nat} {a : Arena α} {b : Backend α}
    {e t : Engine α} {xs ts : Array α} {loss : α} (he : e.Equipped) (hc : e.compiled = some c)
    (h : e.Fits c rows a b)
    (hrun : (measure (some (.ok xs)) (some (.ok ts))).outcome e = (.ok loss, t)) :
    ∃ a' b', t.Fits c rows a' b' ∧ a'.input = xs ∧
      a'.training.map TrainingBuffers.targets = some ts := by
  rw [measure, outcome_bind_of_ok (outcome_requireTrainable hc h _)] at hrun
  rcases outcome_bind_eq_ok hrun with ⟨_, e₁, hretarget, hforth⟩
  rcases outcome_bind_eq_ok hforth with ⟨outputs, e₂, htick, hreport⟩
  rw [outcome_get_bind] at hreport
  rcases outcome_bind_eq_ok hreport with ⟨_, e₃, hloss, hemission⟩
  rcases outcome_bind_eq_ok hemission with ⟨_, e₄, hemit, hend⟩
  -- From the loss on, nothing but the audience changes.
  cases hend
  rcases outcome_onPart_eq_ok hemit with ⟨audience, -, rfl⟩
  rcases outcome_of_eq_ok hloss with ⟨-, rfl⟩
  rcases retarget_cases he hc h (.ok ts) with ⟨f, hfails⟩ | ⟨buffers, hts, hsize, -, hok⟩
  · rw [hfails] at hretarget
    cases hretarget
  · rw [hok] at hretarget
    cases hretarget
    cases hts
    have hfits := h.withTraining hsize
    rcases tick_cases (by exact hc) hfits (some (.ok xs)) with ⟨f, hfails⟩ | ⟨ys, hys, -, hforward⟩
    · rw [hfails] at htick
      cases htick
    · rw [hforward] at htick
      cases htick
      cases hys
      refine ⟨_, _, (hfits.withArena ?_ ?_ ?_).withAudience audience, ?_, ?_⟩
      · rfl
      · rfl
      · rfl
      · rfl
      · rfl

/-- A training tick that succeeds has run on the input and the targets that it was given. -/
theorem fed_of_trainTick {e t : Engine α} {xs ts : Array α} {deltas : Option (Operand α)}
    {loss : α} (he : e.Coherent P) (hcompiled : e.compiled.isSome = true)
    (hrun : (trainTick (some (.ok xs)) (some (.ok ts)) deltas).outcome e = (.ok loss, t)) :
    t.fed = some (xs, ts) := by
  rcases he.exists_fits hcompiled with ⟨c, rows, a, b, hc, hfits⟩
  have hsteps := hrun
  rw [trainTick] at hsteps
  rcases outcome_bind_eq_ok hsteps with ⟨_, e₁, hmeasure, -⟩
  rcases measure_eq_ok he.equipped hc hfits hmeasure with ⟨a₁, b₁, hfits₁, hinput, htargets⟩
  rcases outcome_trainTick_of_measure hmeasure hfits₁ deltas with ⟨r, a₂, htrains,
    ⟨⟨f, rfl⟩, -, -, htick⟩ | ⟨-, htick⟩⟩
  · rw [hrun] at htick
    cases htick
  · rw [hrun] at htick
    cases htick
    exact fed_eq rfl rfl (htrains.input.trans hinput) (htrains.targets.trans htargets)

/-- A training tick leaves what is compiled and the settings as they were. -/
theorem trainTick_keeps {e t : Engine α} {inputs targets deltas : Option (Operand α)} {loss : α}
    (he : e.Coherent P) (hrun : (trainTick inputs targets deltas).outcome e = (.ok loss, t)) :
    t.Coherent P ∧ t.compiled = e.compiled ∧ t.training = e.training := by
  have hafter := trainTick_cases he inputs targets deltas
  rw [after_of_outcome hrun] at hafter
  rcases hafter with hrested | htrained
  · exact ⟨hrested.coherent, hrested.calm.compiled, hrested.calm.training⟩
  · exact ⟨htrained.coherent, htrained.compiled, htrained.training⟩

end Engine
end Plexus
