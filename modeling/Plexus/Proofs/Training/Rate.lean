import Plexus.Proofs.Engine.Rate
import Plexus.Proofs.Engine.Retention
import Plexus.Training.Trainer

/-!
# When the learning rate of an engine is in force

Training ticks use the rate in the buffer of the backend.  It is the rate of the engine, except
where a rate was given to the engine alone: by a training loop that is opened on a backend that
has already been prepared for training, or by preparing training with a rate and targets that
are then refused.  These are the only ways, and they always break the agreement unless the
buffer happens to hold the new rate.
-/

namespace Plexus

/-- What can be done with an engine: an action, or to open a training loop on it. -/
inductive Deed (α : Type) where
  | act (a : Action α)
  | openLoop (rate : Option (Except Fault Float))

namespace Engine

open Attempt
open Value (IdClass)

variable {α : Type} {P : Value → Prop} [Scalar α]

/-- If the backend can train, then it does so at a rate. -/
def TrainsAt (e : Engine α) (x : Float) : Prop :=
  ∀ b, e.backend = some b → b.stage = .trainable → b.rate? = some (Scalar.ofFloat x)

/-- If the backend can train, then it does so at the rate of the engine. -/
def InForce (e : Engine α) : Prop :=
  ∀ b, e.backend = some b → b.stage = .trainable →
    ∃ x, e.rate.toFloat = .ok x ∧ b.rate? = some (Scalar.ofFloat x)

theorem Steady.inForce {e e' : Engine α} (h : e.Steady e') (he : e.InForce) : e'.InForce := by
  intro b' hb' hstage
  rw [h.rate]
  rcases h.supplied b' hb' hstage with ⟨b, hb, hbefore, hrate⟩ | hgiven
  · rw [hrate]
    exact he b hb hbefore
  · exact hgiven

theorem Untrained.inForce {e e' : Engine α} (h : e.Untrained e') : e'.InForce :=
  fun b' hb' hstage => absurd hstage (h.stage b' hb')

/-- Once a graph is compiled the rate is in force, whatever it was before. -/
theorem inForce_of_compile {e e' : Engine α} {c : Compiled α}
    (h : compile.outcome e = (.ok c, e')) : e'.InForce := by
  rw [compile, outcome_get_bind] at h
  dsimp only at h
  by_cases hready : (!e.hasReadyBackend) = true
  · rw [if_pos hready, outcome_throw_bind] at h
    cases h
  · rw [if_neg hready] at h
    rcases outcome_bind_eq_ok h with ⟨d, e₁, hd, h⟩
    rcases outcome_of_eq_ok hd with ⟨-, rfl⟩
    rcases outcome_bind_eq_ok h with ⟨_, e₁, hload, h⟩
    rcases outcome_bind_eq_ok h with ⟨_, e₂, hinstall, h⟩
    cases h
    have hloaded := untrained_load c e
    rw [after_of_outcome hload] at hloaded
    have hsteady := moving_steady.install c e₁
    rw [after_of_outcome hinstall] at hsteady
    exact hsteady.inForce hloaded.inForce

theorem inForce_of_init {e : Engine α} (h : init.succeeds e = true) : (init.after e).InForce := by
  rcases outcome_of_succeeds h with ⟨p, hrun⟩
  rw [init] at hrun
  rcases outcome_bind_eq_ok hrun with ⟨_, e₁, -, hrun⟩
  rcases outcome_bind_eq_ok hrun with ⟨_, e₂, -, hrun⟩
  rcases outcome_bind_eq_ok hrun with ⟨c, e₃, hcompile, hrun⟩
  have hsteady : e₃.Steady (projection.after e₃) := respects_projection e₃
  rw [after_of_outcome hrun] at hsteady
  exact hsteady.inForce (inForce_of_compile hcompile)

/-!
## Giving a rate
-/

/-- A rate that is given to the engine alone is in force only if the buffer already holds it. -/
theorem inForce_withRate_iff (e : Engine α) (x : Float) :
    InForce { e with rate := .real x } ↔ e.TrainsAt x := by
  constructor
  · intro h b hb hstage
    rcases h b hb hstage with ⟨y, hy, hrate⟩
    cases hy
    exact hrate
  · intro h b hb hstage
    exact ⟨x, rfl, h b hb hstage⟩

omit [Scalar α] in
theorem Coherent.withRate {e : Engine α} (he : e.Coherent P) (x : Float) :
    Coherent P { e with rate := .real x } :=
  he.congr ⟨rfl, rfl, rfl, rfl, rfl⟩ rfl rfl rfl rfl fun _ => ⟨x, Number.toFloat_real x⟩

omit [Scalar α] in
theorem Fits.withRate {c : Compiled α} {rows : Nat} {a : Arena α} {b : Backend α} {e : Engine α}
    (h : e.Fits c rows a b) (x : Float) : Fits c rows a b { e with rate := .real x } :=
  ⟨h.toIndexes, h.backend, h.holds, h.backendSize, h.batch, h.tags, h.staged, h.targets⟩

omit [Scalar α] in
theorem outcome_takeRate (x : Float) (e : Engine α) :
    (takeRate (some (.ok x))).outcome e = (.ok (), { e with rate := .real x }) := by
  rw [takeRate, outcome_of_ok_bind]
  rfl

/-- Training that has been prepared goes by the rate of the engine. -/
theorem inForce_of_supervise {c : Compiled α} {rows : Nat} {a : Arena α} {b : Backend α}
    {e e' : Engine α} {targets : Operand α} (h : e.Fits c rows a b)
    (hrun : (supervise targets).outcome e = (.ok (), e')) : e'.InForce := by
  rcases supervise_cases h targets with ⟨f, hfails⟩ | ⟨t, rfl, ht, ⟨x, hx⟩, -⟩
  · rw [hfails] at hrun
    cases hrun
  · rw [supervise, outcome_get_bind, outcome_bind, outcome_onBackend h.backend, hx,
      h.holds.prepareTraining_of_fits ht x] at hrun
    cases hrun
    intro b' hb' _
    cases hb'
    exact ⟨x, hx, rfl⟩

/-- Preparing training with a rate is refused, gives the rate to both, or to the engine alone. -/
theorem prepareTraining_cases {e : Engine α} (he : e.Coherent P) (targets : Operand α)
    (x : Float) :
    (e.compiled = none ∧ (prepareTraining targets (some (.ok x))).after e = e) ∨
      (e.compiled.isSome = true ∧
        (((prepareTraining targets (some (.ok x))).succeeds e = true ∧
            ((prepareTraining targets (some (.ok x))).after e).InForce) ∨
          ((prepareTraining targets (some (.ok x))).succeeds e = false ∧
            (prepareTraining targets (some (.ok x))).after e = { e with rate := .real x }))) := by
  rcases Option.eq_none_or_eq_some e.compiled with hc | ⟨c, hc⟩
  · rcases (checks_requireTrainable "prepare_training").bind _ e hc with ⟨f, hrun⟩
    exact Or.inl ⟨hc, after_of_outcome hrun⟩
  · apply Or.inr
    refine ⟨by rw [hc]; rfl, ?_⟩
    rcases he.fits c hc with ⟨rows, a, b, hfits⟩
    have hrun : (prepareTraining targets (some (.ok x))).outcome e =
        (supervise targets).outcome { e with rate := .real x } := by
      rw [prepareTraining, outcome_bind_of_ok (outcome_requireTrainable hc hfits _),
        outcome_bind_of_ok (outcome_takeRate x e)]
    rcases supervise_cases (hfits.withRate x) targets with ⟨f, hfails⟩ | ⟨t, -, -, -, hok⟩
    · rw [hfails] at hrun
      exact Or.inr ⟨not_succeeds_of_error hrun, after_of_outcome hrun⟩
    · have hforce := inForce_of_supervise (hfits.withRate x) hok
      rw [hok] at hrun
      rw [after_of_outcome hrun]
      exact Or.inl ⟨succeeds_of_ok (congrArg Prod.fst hrun), hforce⟩

end Engine

/-!
## Deeds
-/

namespace Deed

open Attempt
open Engine
open Value (IdClass)

variable {α : Type} {P : Value → Prop} [Scalar α]

/-- Carries a deed out.  What a loop does later is done by actions. -/
def perform : Deed α → Attempt (Engine α) Unit
  | .act a => a.perform
  | .openLoop rate => void (TrainingLoop.start rate : Attempt (Engine α) (TrainingLoop α Unit))

def Admissible (P : Value → Prop) (e : Engine α) : Deed α → Prop
  | .act a => a.Admissible P e
  | .openLoop _ => True

/-- Opening a loop respects what setting its rate does. -/
theorem respects_openLoop {R : Engine α → Engine α → Prop} [IsPreorder (Engine α) R]
    {rate : Option (Except Fault Float)} (h : Respects R (takeRate rate)) :
    Respects R (openLoop rate).perform := by
  refine Respects.void (respects_get_bind fun e => ?_)
  split
  · refine respects_guard ?_ e
    exact h.bind fun _ => respects_pure _
  · exact (h.bind fun _ => respects_pure _) e

/-- The rate that a deed gives to the engine alone. -/
def alone (e : Engine α) : Deed α → Option Float
  | .openLoop (some (.ok x)) => some x
  | .act (.prepareTraining targets (some (.ok x))) =>
      if e.compiled.isSome && !(prepareTraining targets (some (.ok x))).succeeds e then some x
      else none
  | _ => none

/-- Whether a rate that is given to the engine alone is the one that the backend trains at. -/
def Reaches (e : Engine α) (d : Deed α) : Prop := ∀ x, d.alone e = some x → e.TrainsAt x

theorem after_openLoop {e : Engine α} (he : e.Coherent P) (rate : Option (Except Fault Float)) :
    (openLoop rate : Deed α).perform.after e = (takeRate rate).after e := by
  rcases he.equipped.backend with ⟨b, hb, hequipped⟩
  rcases hequipped.dense with ⟨held, hheld⟩
  rw [perform, after_void, TrainingLoop.start, after, outcome_get_bind, hb]
  dsimp only
  rw [Backend.trainable_of_dense hheld]
  show ((takeRate rate >>= fun _ => pure .fresh :
    Attempt (Engine α) (TrainingLoop α Unit)).outcome e).2 = _
  rw [outcome_bind, after]
  cases (takeRate rate).outcome e with
  | mk r t => cases r <;> rfl

theorem after_openLoop_some {e : Engine α} (he : e.Coherent P) (x : Float) :
    (openLoop (some (.ok x)) : Deed α).perform.after e = { e with rate := .real x } := by
  rw [after_openLoop he, after_of_outcome (outcome_takeRate x e)]

theorem coherent_after {d : Deed α} {e : Engine α} (hP : IdClass P) (he : e.Coherent P)
    (hd : d.Admissible P e) : (d.perform.after e).Coherent P := by
  cases d with
  | act a => exact a.coherent_after hP he hd
  | openLoop rate =>
      match rate with
      | some (.ok x) =>
          rw [after_openLoop_some he]
          exact he.withRate x
      | none | some (.error f) =>
          rw [after_openLoop he]
          exact he

/-- Whatever is kept when the network stands still is kept when a loop is opened. -/
theorem invariant_after {I : Engine α → Prop} {d : Deed α} {e : Engine α} (hP : IdClass P)
    (hI : Invariant P I) (he : e.Coherent P) (hd : d.Admissible P e) (hold : I e) :
    I (d.perform.after e) := by
  cases d with
  | act a => exact hI.after hP he hd hold
  | openLoop rate =>
      match rate with
      | some (.ok x) =>
          have hcalm : e.Calm { e with rate := .real x } := ⟨rfl, rfl, rfl, rfl, rfl, rfl⟩
          rw [after_openLoop_some he]
          exact hI.calm hcalm hold
      | none | some (.error f) =>
          rw [after_openLoop he]
          exact hold

/-- A deed that gives no rate to the engine alone leaves a rate in force that is. -/
theorem inForce_of_not_alone {d : Deed α} {e : Engine α} (he : e.Coherent P)
    (halone : d.alone e = none) (hforce : e.InForce) : (d.perform.after e).InForce := by
  cases d with
  | openLoop rate =>
      match rate with
      | some (.ok x) => cases halone
      | none | some (.error f) =>
          rw [after_openLoop he]
          exact hforce
  | act a =>
      cases hrate : a.rate? with
      | none => exact (Action.steady_perform hrate e).inForce hforce
      | some r =>
          cases a with
          | prepareTraining targets rate =>
              cases hrate
              cases r with
              | error f =>
                  have hrefused : Respects Steady (takeRate (α := α) (some (.error f))) :=
                    fun e => (refl e : e.Steady e)
                  exact (moving_steady.prepareTraining targets hrefused e).inForce hforce
              | ok x =>
                  rcases prepareTraining_cases he targets x with
                    ⟨-, hafter⟩ | ⟨hcompiled, ⟨-, hforce'⟩ | ⟨hfails, -⟩⟩
                  · rw [perform, Action.perform, hafter]
                    exact hforce
                  · exact hforce'
                  · simp [alone, hcompiled, hfails] at halone
          | init | compile | close | addNeuron | addSynapse | deleteNeuron | deleteSynapse
          | updateSynapseWeight | importGraph | exportGraph | syncWeights | injectInput | tick
          | trainTick | setTraining | attend => cases hrate

/-- A rate that is given to the engine alone is in force only if the buffer already holds it. -/
theorem inForce_iff_of_alone {d : Deed α} {e : Engine α} {x : Float} (he : e.Coherent P)
    (halone : d.alone e = some x) : (d.perform.after e).InForce ↔ e.TrainsAt x := by
  have hafter : d.perform.after e = { e with rate := .real x } := by
    cases d with
    | openLoop rate =>
        match rate with
        | some (.ok y) =>
            cases halone
            exact after_openLoop_some he x
        | none | some (.error f) => cases halone
    | act a =>
        cases a with
        | prepareTraining targets rate =>
            match rate with
            | some (.ok y) =>
                simp only [alone, Option.ite_none_right_eq_some, Bool.and_eq_true,
                  Bool.not_eq_true', Option.some.injEq] at halone
                rcases halone with ⟨⟨hcompiled, hfails⟩, rfl⟩
                rcases prepareTraining_cases he targets y with
                  ⟨hnone, -⟩ | ⟨-, ⟨hok, -⟩ | ⟨-, hafter⟩⟩
                · rw [hnone] at hcompiled
                  cases hcompiled
                · rw [hfails] at hok
                  cases hok
                · exact hafter
            | none | some (.error f) => cases halone
        | init | compile | close | addNeuron | addSynapse | deleteNeuron | deleteSynapse
        | updateSynapseWeight | importGraph | exportGraph | syncWeights | injectInput | tick
        | trainTick | setTraining | attend => cases halone
  rw [hafter]
  exact inForce_withRate_iff e x

end Deed

/-!
## Updates
-/

namespace Backend

open Attempt

variable {α : Type} [Scalar α]

/-- A training step that succeeds has updated the parameters with the rate in the buffer. -/
theorem Holds.descend_eq_ok {settings : TrainingSettings} {rows : Nat} {a : Arena α}
    {b b' : Backend α} {given : Option (Array α)} (h : b.Holds settings rows a)
    (hrun : (descend given).outcome b = (.ok (), b')) :
    ∃ t rank deltas, a.training = some t ∧
      b' = b.withArena settings ((a.keepDeltas t deltas).update b.size b.batch rank t deltas) := by
  simp only [descend, outcome_get_bind, h.machine] at hrun
  cases ht : a.training with
  | none =>
      rw [ht] at hrun
      cases hrun
  | some t =>
      rw [ht] at hrun
      simp only [outcome_set_bind] at hrun
      rcases outcome_bind_eq_ok hrun with ⟨_, b₁, hcheck, hrun⟩
      rcases outcome_bind_eq_ok hrun with ⟨rank, b₂, hrank, hrun⟩
      cases hrun
      exact ⟨t, rank, _, rfl, rfl⟩

theorem Holds.trainTick_eq_ok {settings : TrainingSettings} {rows : Nat} {a : Arena α}
    {b b' : Backend α} {deltas : Option (Operand α)} (h : b.Holds settings rows a)
    (hrun : (trainTick deltas).outcome b = (.ok (), b')) :
    b.stage = .trainable ∧ ∃ t rank deltas, a.training = some t ∧
      b' = b.withArena settings ((a.keepDeltas t deltas).update b.size b.batch rank t deltas) := by
  rw [trainTick, outcome_bind_of_ok (outcome_requireTraining (trainable_of_dense h.machine)),
    outcome_bind, outcome_require] at hrun
  by_cases hstage : b.stage < .trainable
  · rw [if_pos hstage] at hrun
    cases hrun
  · rw [if_neg hstage] at hrun
    have htrainable : b.stage = .trainable := by
      rw [h.stage, h.isSome_training hstage]
      rfl
    refine ⟨htrainable, ?_⟩
    cases deltas with
    | none => exact h.descend_eq_ok hrun
    | some ds =>
        rcases h.checkTargets_cases ds with ⟨f, hcheck⟩ | ⟨xs, rfl, -, hcheck⟩
        · simp only [checkDeltas, outcome_bind, hcheck] at hrun
          cases hrun
        · simp only [checkDeltas, outcome_bind, hcheck, outcome_pure] at hrun
          exact h.descend_eq_ok hrun

end Backend

namespace Engine

open Attempt
open Value (IdClass)

variable {α : Type} {P : Value → Prop} [Scalar α]

/-- An engine after an update of its parameters at a rate. -/
def Updates (rate : α) (e e' : Engine α) : Prop :=
  ∃ (a : Arena α) (t : TrainingBuffers α) (rank : Option Nat) (deltas : Array α),
    e.parameters = some (a.weights, a.biases) ∧ t.rate = rate ∧
      e'.parameters = some ((a.update e.size e.batch rank t deltas).weights,
        (a.update e.size e.batch rank t deltas).biases)

/-- A training tick updates the parameters at the rate of the engine, if that is in force. -/
theorem updates_of_trainTick {e e' : Engine α} {inputs targets deltas : Option (Operand α)}
    {loss : α} (he : e.Coherent P) (hforce : e.InForce)
    (hrun : (trainTick inputs targets deltas).outcome e = (.ok loss, e')) :
    ∃ x, e.rate.toFloat = .ok x ∧ e.Updates (Scalar.ofFloat x) e' := by
  rw [trainTick] at hrun
  rcases outcome_bind_eq_ok hrun with ⟨_, t, hmeasure, hrun⟩
  rcases outcome_bind_eq_ok hrun with ⟨_, u, htrain, hrun⟩
  cases hrun
  have hrested := (rests_measure inputs targets).rested (checks_measure inputs targets) he
  have hsteady := moving_steady.measure inputs targets e
  rw [after_of_outcome hmeasure] at hrested hsteady
  rcases Option.eq_none_or_eq_some t.compiled with hc | ⟨c, hc⟩
  · rw [hrested.calm.compiled] at hc
    rcases checks_measure inputs targets e hc with ⟨f, hfails⟩
    rw [hfails] at hmeasure
    cases hmeasure
  · rcases hrested.coherent.fits c hc with ⟨rows, a, b, hfits⟩
    rw [outcome_onBackend hfits.backend] at htrain
    cases hstep : (Backend.trainTick deltas).outcome b with
    | mk r b' =>
        rw [hstep] at htrain
        cases htrain
        rcases hfits.holds.trainTick_eq_ok hstep with ⟨hstage, buffers, rank, ds, hbuffers, rfl⟩
        rcases hsteady.inForce hforce b hfits.backend hstage with ⟨x, hx, hrate⟩
        rw [hsteady.rate] at hx
        have hsize : e.size = b.size := by
          rw [← hrested.calm.size_eq, hfits.engineSize_eq hc]
        have hbatch : e.batch = b.batch := by
          rw [← hrested.calm.batch_eq, hfits.batch_eq, hfits.holds.batch_eq]
        refine ⟨x, hx, a.keepDeltas buffers ds, buffers, rank, ds, ?_, ?_, ?_⟩
        · rw [← hrested.calm.parameters, hfits.parameters_eq]
          rfl
        · rw [hfits.holds.rate?_eq hbuffers] at hrate
          exact Option.some.inj hrate
        · rw [hsize, hbatch]
          rfl

/-!
## Courses
-/

/-- The states that an engine has been through since it was initialised, and what was done there. -/
inductive Course (P : Value → Prop) : List (Engine α × Deed α) → Engine α → Prop
  | opened {e : Engine α} (h : e.Startable P) (hinit : init.succeeds e = true) :
      Course P [] (init.after e)
  | step {past : List (Engine α × Deed α)} {e : Engine α} (h : Course P past e) (d : Deed α)
      (hd : d.Admissible P e) : Course P (past ++ [(e, d)]) (d.perform.after e)

theorem Course.coherent {past : List (Engine α × Deed α)} {e : Engine α} (hP : IdClass P)
    (h : Course P past e) : e.Coherent P := by
  induction h with
  | opened h hinit =>
      rcases h.rebuilt hP hinit with ⟨ns, ss, hrebuilt, -⟩
      exact hrebuilt.coherent
  | step h d hd ih => exact d.coherent_after hP ih hd

theorem Course.invariant {past : List (Engine α × Deed α)} {e : Engine α} {I : Engine α → Prop}
    (hP : IdClass P) (hI : Invariant P I) (h : Course P past e) :
    I e := by
  induction h with
  | opened h hinit =>
      rcases h.rebuilt hP hinit with ⟨ns, ss, hrebuilt, -⟩
      exact hI.rebuilt hrebuilt
  | step h d hd ih => exact d.invariant_after hP hI (h.coherent hP) hd ih

/-- The rate is in force all along exactly if each rate given to the engine alone reaches it. -/
theorem Course.inForce_iff {past : List (Engine α × Deed α)} {e : Engine α} (hP : IdClass P)
    (h : Course P past e) :
    ((∀ p ∈ past, p.1.InForce) ∧ e.InForce) ↔ ∀ p ∈ past, p.2.Reaches p.1 := by
  induction h with
  | opened h hinit =>
      constructor
      · intro _ p hp
        cases hp
      · intro _
        refine ⟨?_, inForce_of_init hinit⟩
        intro p hp
        cases hp
  | @step past e h d hd ih =>
      have he := h.coherent hP
      simp only [List.forall_mem_append, List.forall_mem_singleton]
      rw [← ih]
      constructor
      · rintro ⟨⟨hpast, hforce⟩, hafter⟩
        refine ⟨⟨hpast, hforce⟩, fun x hx => ?_⟩
        exact (Deed.inForce_iff_of_alone he hx).mp hafter
      · rintro ⟨⟨hpast, hforce⟩, hreaches⟩
        refine ⟨⟨hpast, hforce⟩, ?_⟩
        cases halone : d.alone e with
        | none => exact Deed.inForce_of_not_alone he halone hforce
        | some x => exact (Deed.inForce_iff_of_alone he halone).mpr (hreaches x halone)

/--
The rate of an engine is in force in every state that it has been through exactly if no rate was
given to the engine alone while the backend trained at another one.  Where it is in force, each
training tick updates the parameters with it, in the precision of the buffer.
-/
theorem rate_in_force_iff {past : List (Engine α × Deed α)} {e : Engine α} (hP : IdClass P)
    (h : Course P past e) :
    (((∀ p ∈ past, p.1.InForce) ∧ e.InForce) ↔ ∀ p ∈ past, p.2.Reaches p.1) ∧
      (e.InForce → ∀ inputs targets deltas loss e',
        (trainTick inputs targets deltas).outcome e = (.ok loss, e') →
          ∃ x, e.rate.toFloat = .ok x ∧ e.Updates (Scalar.ofFloat x) e') :=
  ⟨h.inForce_iff hP, fun hforce _ _ _ _ _ hrun =>
    updates_of_trainTick (h.coherent hP) hforce hrun⟩

/-- A loop is opened with a rate of its own before training is prepared. -/
def earlyLoop : Engine Float32 :=
  (Deed.openLoop (some (.ok 0.25))).perform.after (init.after parallel)

def preparedEarlyLoop : Engine Float32 :=
  (Deed.act (.prepareTraining (.ok #[0.0, 1.0]) none)).perform.after earlyLoop

theorem trainsAt_parallel (x : Float) : (init.after parallel).TrainsAt x := by
  intro b hb hstage
  have hearly : (init.after parallel).backend.map Backend.stage = some .compiled := by
    decide +kernel
  rw [hb, Option.map_some, hstage] at hearly
  cases hearly

theorem rate_in_force_iff_earlyLoop :
    earlyLoop.InForce ∧ preparedEarlyLoop.InForce ∧
      (trainTick (some (.ok #[1.0, 0.0])) none none).succeeds preparedEarlyLoop = true ∧
      ∃ x, preparedEarlyLoop.rate.toFloat = .ok x ∧
        preparedEarlyLoop.Updates (Scalar.ofFloat x)
          ((trainTick (some (.ok #[1.0, 0.0])) none none).after preparedEarlyLoop) := by
  have hearly := (Course.opened startable_parallel init_parallel).step
    (.openLoop (some (.ok 0.25))) trivial
  have hprepared : Course Value.IsText [(init.after parallel, .openLoop (some (.ok 0.25))),
      (earlyLoop, .act (.prepareTraining (.ok #[0.0, 1.0]) none))] preparedEarlyLoop :=
    hearly.step (.act (.prepareTraining (.ok #[0.0, 1.0]) none)) trivial
  rcases rate_in_force_iff Value.idClass_isText hprepared with ⟨hiff, hupdates⟩
  have hreaches : ∀ p ∈ [(init.after parallel, .openLoop (some (.ok 0.25))),
      (earlyLoop, .act (.prepareTraining (.ok #[0.0, 1.0]) none))],
      Deed.Reaches p.1 p.2 := by
    intro p hp x hx
    rcases List.mem_cons.mp hp with rfl | hp
    · exact trainsAt_parallel x
    · rw [List.mem_singleton.mp hp] at hx
      cases hx
  have hforce := hiff.mpr hreaches
  have hok : (trainTick (some (.ok #[1.0, 0.0])) none none).succeeds preparedEarlyLoop = true := by
    decide +kernel
  rcases outcome_of_succeeds hok with ⟨loss, hrun⟩
  exact ⟨hforce.1 _ (List.mem_cons_of_mem _ List.mem_cons_self), hforce.2, hok,
    hupdates hforce.2 _ _ _ _ _ hrun⟩

def preparedParallel : Engine Float32 :=
  (Deed.act (.prepareTraining (.ok #[0.0, 1.0]) (some (.ok 0.5)))).perform.after
    (init.after parallel)

/-- A loop is opened with a rate of its own after training has been prepared with another one. -/
def lateLoop : Engine Float32 :=
  (Deed.openLoop (some (.ok 0.25))).perform.after preparedParallel

/-- The rate of a loop that is opened late is not in force. -/
theorem rate_not_in_force_lateLoop :
    ¬∀ (past : List (Engine Float32 × Deed Float32)) (e : Engine Float32),
      Course Value.IsText past e → e.InForce := by
  intro h
  have hprepared := (Course.opened startable_parallel init_parallel).step
    (.act (.prepareTraining (.ok #[0.0, 1.0]) (some (.ok 0.5)))) trivial
  have hcoherent := hprepared.coherent Value.idClass_isText
  have hlate := h _ lateLoop (hprepared.step (.openLoop (some (.ok 0.25))) trivial)
  have htrains : preparedParallel.TrainsAt 0.25 :=
    (Deed.inForce_iff_of_alone hcoherent rfl).mp hlate
  have hbuffer : preparedParallel.backend.map (fun b => (b.stage, b.rate?.map Float32.toBits)) =
      some (.trainable, some (0.5 : Float32).toBits) := by
    decide +kernel
  rcases Option.map_eq_some_iff.mp hbuffer with ⟨b, hb, hpair⟩
  rw [Prod.mk.injEq] at hpair
  rw [htrains b hb hpair.1] at hpair
  exact absurd hpair.2 (by decide +kernel)

end Engine
end Plexus
