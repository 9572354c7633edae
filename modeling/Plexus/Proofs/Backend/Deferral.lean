import Plexus.Proofs.Backend.Allocation

/-!
# When new settings take effect

Settings that a dense backend takes over are not looked at before they are needed: the precision of
parameters when a network is prepared, the precision of deltas when training is prepared, and the
rank of an update at each training tick.  So, as long as no network is prepared, it cannot be told
whether settings were taken over, exactly if they agree with the earlier ones on what is needed.
-/

namespace Plexus
namespace Backend

open Attempt

variable {α β γ : Type}

/-!
## Steps that do not look at the settings
-/

/-- A step that comes to the same if settings are taken over first, up to the settings. -/
def Ignores (c : TrainingSettings) (step : Attempt (Backend α) β) (b : Backend α) : Prop :=
  step.outcome (b.configure c) = ((step.outcome b).1, (step.after b).configure c)

section Ignores

variable {c : TrainingSettings} {b : Backend α}

theorem Ignores.bind {step : Attempt (Backend α) β} {next : β → Attempt (Backend α) γ}
    (h : Ignores c step b)
    (hnext : ∀ x, step.outcome b = (.ok x, step.after b) → Ignores c (next x) (step.after b)) :
    Ignores c (step >>= next) b := by
  unfold Ignores at h hnext ⊢
  unfold after at h hnext ⊢
  rw [outcome_bind, outcome_bind, h]
  cases hrun : step.outcome b with
  | mk r t =>
      rw [hrun] at hnext
      cases r with
      | ok x => exact hnext x rfl
      | error f => rfl

theorem Ignores.check {step : Attempt (Backend α) β} {next : β → Attempt (Backend α) γ}
    (hstep : Respects Eq step) (h : Ignores c step b)
    (hnext : ∀ x, step.outcome b = (.ok x, b) → Ignores c (next x) b) :
    Ignores c (step >>= next) b := by
  have hsame : step.after b = b := (hstep b).symm
  refine h.bind fun x hx => ?_
  rw [hsame] at hx ⊢
  exact hnext x hx

theorem ignores_of (r : Except Fault β) : Ignores c (of r : Attempt (Backend α) β) b := rfl

theorem ignores_pure (x : β) : Ignores c (pure x : Attempt (Backend α) β) b := rfl

theorem ignores_throw (f : Fault) : Ignores c (throw f : Attempt (Backend α) β) b := rfl

theorem ignores_get_bind {next : Backend α → Attempt (Backend α) β}
    (h : (next (b.configure c)).outcome (b.configure c) =
      (((next b).outcome b).1, ((next b).after b).configure c)) :
    Ignores c (get >>= next) b := by
  rw [Ignores, after, outcome_get_bind, outcome_get_bind]
  exact h

theorem configure_of_dense {settings : TrainingSettings} {held : Holding α}
    (h : b.machine = .dense settings held) :
    b.configure c = { b with machine := .dense c held } := by
  rw [configure, h]

theorem configure_of_graph {claims : Bool} {built : Option (OpGraph α)}
    (h : b.machine = .graph claims built) : b.configure c = b := by
  rw [configure, h]

@[simp] theorem size_configure : (b.configure c).size = b.size := by
  unfold configure
  split <;> rfl

@[simp] theorem givenBatch_configure : (b.configure c).givenBatch = b.givenBatch := by
  unfold configure
  split <;> rfl

@[simp] theorem name_configure : (b.configure c).name = b.name := by
  cases hmachine : b.machine with
  | dense settings held => rw [configure_of_dense hmachine, name, name, hmachine]
  | graph claims built => rw [configure_of_graph hmachine]

@[simp] theorem trainable_configure : (b.configure c).trainable = b.trainable := by
  cases hmachine : b.machine with
  | dense settings held => rw [configure_of_dense hmachine, trainable, trainable, hmachine]
  | graph claims built => rw [configure_of_graph hmachine]

@[simp] theorem held_configure : (b.configure c).held = b.held := by
  cases hmachine : b.machine with
  | dense settings held => rw [configure_of_dense hmachine, Backend.held, Backend.held, hmachine]
  | graph claims built => rw [configure_of_graph hmachine]

theorem cells_configure : (b.configure c).cells = b.cells := by
  rw [cells, cells, givenBatch_configure, size_configure]

theorem fits_configure (xs : Array α) : (b.configure c).fits xs = b.fits xs := by
  rw [fits, fits, cells_configure]

theorem missNetwork_configure (given : Bool) :
    (b.configure c).missNetwork given = b.missNetwork given := by
  simp only [missNetwork, missingRole, held_configure, givenBatch_configure, size_configure]

theorem ignores_require (needed : Stage) (operation : String) :
    Ignores c (require needed operation : Attempt (Backend α) Unit) b := by
  rw [Ignores, after, outcome_require, outcome_require, stage_configure, name_configure]
  split <;> rfl

theorem ignores_requireTraining : Ignores c (requireTraining : Attempt (Backend α) Unit) b := by
  refine ignores_get_bind ?_
  rw [trainable_configure, name_configure]
  split <;> rfl

theorem ignores_checkTargets (targets : Operand α) :
    Ignores c (checkTargets targets : Attempt (Backend α) (Array α)) b := by
  refine (ignores_of targets).check (respects_of targets) fun ts _ => ignores_get_bind ?_
  rw [fits_configure, cells_configure]
  dsimp only
  split <;> rfl

theorem ignores_checkDeltas (deltas : Option (Operand α)) :
    Ignores c (checkDeltas deltas : Attempt (Backend α) (Option (Array α))) b := by
  cases deltas with
  | none => exact ignores_pure none
  | some ds => exact (ignores_checkTargets ds).bind fun xs _ => ignores_pure (some xs)

theorem ignores_readTraining (targets : Operand α) (rate : Except Fault Float) :
    Ignores c (readTraining targets rate : Attempt (Backend α) (Array α × Float)) b :=
  ignores_requireTraining.bind fun _ _ => (ignores_require _ _).bind fun _ _ =>
    (ignores_checkTargets targets).bind fun _ _ => (ignores_of rate).bind fun _ _ => ignores_pure _

theorem ignores_readDeltas (deltas : Option (Operand α)) :
    Ignores c (readDeltas deltas : Attempt (Backend α) (Option (Array α))) b :=
  ignores_requireTraining.bind fun _ _ => (ignores_require _ _).bind fun _ _ =>
    ignores_checkDeltas deltas

end Ignores

section Dense

variable {c settings : TrainingSettings} {held : Holding α} {b : Backend α}

theorem ignores_init (h : b.machine = .dense settings held) :
    Ignores c (init : Attempt (Backend α) Unit) b := by
  refine ignores_get_bind ?_
  rw [configure_of_dense h, h]
  cases hdevice : Device.resolve b.host b.requested false with
  | error f =>
      simp only [hdevice, outcome_of_error_bind, after, configure_of_dense h]
  | ok device =>
      simp only [hdevice, outcome_of_ok_bind, outcome_set, after]
      rfl

theorem ignores_release (h : b.machine = .dense settings held) :
    Ignores c (modify release : Attempt (Backend α) PUnit) b := by
  rw [Ignores, after, outcome_modify, outcome_modify, configure_of_dense h, release, release, h]
  rfl

theorem ignores_setTargets (h : b.machine = .dense settings held) (targets : Operand α) :
    Ignores c (setTargets targets : Attempt (Backend α) Unit) b := by
  refine Ignores.check respects_requireTraining ignores_requireTraining fun _ _ => ?_
  refine Ignores.check (respects_require _ _) (ignores_require _ _) fun _ _ => ?_
  refine Ignores.check (respects_checkTargets targets) (ignores_checkTargets targets) fun ts _ =>
    ignores_get_bind ?_
  rw [configure_of_dense h, h]
  dsimp only
  cases held.training? with
  | none => simp only [outcome_throw, after, configure_of_dense h]
  | some t => rfl

variable [Scalar α]

theorem ignores_forward (h : b.machine = .dense settings held) (inputs : Operand α) :
    Ignores c (forward inputs : Attempt (Backend α) (Array α)) b := by
  refine Ignores.check (respects_require _ _) (ignores_require _ _) fun _ _ => ?_
  refine Ignores.check (respects_of inputs) (ignores_of inputs) fun xs _ => ignores_get_bind ?_
  rw [fits_configure, cells_configure, size_configure]
  dsimp only
  by_cases hfits : (!b.fits xs) = true
  · rw [if_pos hfits, if_pos hfits]
    exact ignores_throw _
  · rw [if_neg hfits, if_neg hfits, configure_of_dense h, h]
    cases held with
    | network a => rfl
    | nothing | deltas | training => simp only [outcome_throw, after, configure_of_dense h]

theorem ignores_readParameters (h : b.machine = .dense settings held) :
    Ignores c (readParameters : Attempt (Backend α) (Array α × Array α)) b := by
  refine Ignores.check (respects_require _ _) (ignores_require _ _) fun _ _ => ignores_get_bind ?_
  rw [configure_of_dense h, h]
  cases held with
  | network a => simp only [outcome_pure, after, configure_of_dense h]
  | nothing | deltas | training => simp only [outcome_throw, after, configure_of_dense h]

theorem ignores_setLearningRate (h : b.machine = .dense settings held) (rate : Except Fault Float) :
    Ignores c (setLearningRate rate : Attempt (Backend α) Unit) b := by
  refine ignores_get_bind ?_
  have hheld : b.held = held := by rw [Backend.held, h]
  rw [held_configure, hheld, configure_of_dense h, h]
  cases held.training? with
  | none => simp only [outcome_pure, after, configure_of_dense h]
  | some t =>
      dsimp only
      cases rate with
      | error f => simp only [outcome_of_error_bind, after, configure_of_dense h]
      | ok x =>
          simp only [outcome_of_ok_bind, after]
          by_cases hover : (x.isFinite && decide (greatestRate < x.abs)) = true
          · rw [if_pos hover, if_pos hover, outcome_throw_bind, outcome_throw_bind,
              configure_of_dense h]
          · rw [if_neg hover, if_neg hover]
            rfl

/-!
## Steps that look at the settings
-/

/-- Preparing training does not look at the settings beyond the precision of deltas. -/
theorem ignores_prepareTraining (h : b.machine = .dense settings held) {targets : Operand α}
    {rate : Except Fault Float}
    (hsame : ∀ p rows, (readTraining targets rate).outcome b = (.ok p, b) →
      Machine.rows b.givenBatch = .ok rows → c.adapterPrecision = settings.adapterPrecision) :
    Ignores c (prepareTraining targets rate : Attempt (Backend α) Unit) b := by
  rw [prepareTraining_eq]
  refine Ignores.check (respects_readTraining targets rate) (ignores_readTraining targets rate)
    fun p hp => ?_
  have hc := configure_of_dense (c := c) h
  have hmachine : (b.configure c).machine = .dense c held := by rw [hc]
  rw [Ignores, after, outcome_allocateTraining h, outcome_allocateTraining hmachine,
    givenBatch_configure, size_configure]
  cases hrows : Machine.rows b.givenBatch with
  | error f => rfl
  | ok rows =>
      rw [hsame p rows hp hrows, hc]
      cases b.givenBatch.rows with
      | error f => rfl
      | ok rows => rfl

/-- A training tick does not look at the settings beyond the rank of the update. -/
theorem ignores_trainTick (h : b.machine = .dense settings held) {deltas : Option (Operand α)}
    (hsame : ∀ given a t, (readDeltas deltas).outcome b = (.ok given, b) → held = .network a →
      a.training = some t →
        a.trained b.size b.batch c.rank t given = a.trained b.size b.batch settings.rank t given) :
    Ignores c (trainTick deltas : Attempt (Backend α) Unit) b := by
  rw [trainTick_eq]
  refine Ignores.check (respects_readDeltas deltas) (ignores_readDeltas deltas) ?_
  intro given hgiven
  have hc := configure_of_dense (c := c) h
  have hmachine : (b.configure c).machine = .dense c held := by rw [hc]
  -- Without a network whose training is prepared, nothing gets as far as the rank.
  have hunmoved : ∀ {r : Except Fault Unit}, (descend given).outcome (b.configure c) =
      (r, b.configure c) → (descend given).outcome b = (r, b) → Ignores c (descend given) b := by
    intro r hrun hrun'
    rw [Ignores, after, hrun, hrun']
  cases held with
  | nothing | deltas | training =>
      refine hunmoved (r := b.missNetwork given.isSome) ?_ ?_
      · rw [descend, outcome_get_bind, hmachine]
        dsimp only
        rw [outcome_of, missNetwork_configure]
      · rw [descend, outcome_get_bind, h]
        rfl
  | network a =>
      cases ht : a.training with
      | none =>
          refine hunmoved (r := .error .absent) ?_ ?_
          · rw [descend, outcome_get_bind, hmachine]
            dsimp only
            rw [ht]
            rfl
          · rw [descend, outcome_get_bind, h]
            dsimp only
            rw [ht]
            rfl
      | some t =>
          have hbatch : (b.configure c).batch = b.batch := by
            rw [Backend.batch, Backend.batch, givenBatch_configure]
          rw [Ignores, after, outcome_descend h ht, outcome_descend hmachine ht, size_configure,
            hbatch, hsame given a t hgiven rfl ht, hc]
          cases a.trained b.size b.batch settings.rank t given with
          | error f => rfl
          | ok a' => rfl

end Dense

/-!
## Requests
-/

variable [Scalar α] {c : TrainingSettings} {b : Backend α}

/-- A request that neither prepares a network nor takes settings over. -/
def Request.Defers : Request α → Prop
  | .call (.prepare ..) | .configure _ => False
  | _ => True

/-- Whether what a request takes from the settings is the same in others. -/
def Request.Indifferent (c : TrainingSettings) (b : Backend α) : Request α → Prop
  | .prepareTraining targets rate => ∀ p rows settings,
      (readTraining targets rate).outcome b = (.ok p, b) → Machine.rows b.givenBatch = .ok rows →
        b.settings = some settings → c.adapterPrecision = settings.adapterPrecision
  | .trainTick deltas => ∀ given settings a t,
      (readDeltas deltas).outcome b = (.ok given, b) → b.machine = .dense settings (.network a) →
        a.training = some t →
          a.trained b.size b.batch c.rank t given = a.trained b.size b.batch settings.rank t given
  | _ => True

/-- What can be seen of a request: its result and the buffers after it. -/
structure Same (p q : Except Fault (Answer α) × Backend α) : Prop where
  result : p.1 = q.1
  held : p.2.held = q.2.held

omit [Scalar α] in
theorem Ignores.same {step : Attempt (Backend α) (Answer α)} (h : Ignores c step b) :
    Same (step.outcome (b.configure c)) (step.outcome b) := by
  rw [h]
  exact ⟨rfl, held_configure⟩

theorem ignores_perform (hb : b.Sound) {r : Request α} (hdefers : r.Defers)
    (h : r.Indifferent c b) : Ignores c r.perform b := by
  rcases hb.dense with ⟨settings, held, hmachine⟩
  have hanswer : ∀ {β : Type} {step : Attempt (Backend α) β} (g : β → Answer α),
      Ignores c step b → Ignores c (step >>= fun x => pure (g x)) b :=
    fun g hstep => hstep.bind fun x _ => ignores_pure (g x)
  cases r with
  | call call =>
      cases call with
      | init => exact hanswer _ (ignores_init hmachine)
      | prepare => cases hdefers
      | forward inputs => exact hanswer _ (ignores_forward hmachine inputs)
      | readParameters =>
          exact hanswer (fun p => Answer.parameters p.1 p.2) (ignores_readParameters hmachine)
      | release => exact hanswer (fun _ => .nothing) (ignores_release hmachine)
  | prepareTraining targets rate =>
      exact hanswer _ (ignores_prepareTraining hmachine fun p rows hp hrows =>
        h p rows settings hp hrows (settings_of_dense hmachine))
  | setTargets targets => exact hanswer _ (ignores_setTargets hmachine targets)
  | setLearningRate rate => exact hanswer _ (ignores_setLearningRate hmachine rate)
  | trainTick deltas =>
      exact hanswer _ (ignores_trainTick hmachine fun given a t hgiven hheld ht =>
        h given settings a t hgiven (hheld ▸ hmachine) ht)
  | configure => cases hdefers

omit [Scalar α] in
theorem precision_of_withDeltas {held : Holding α} {cells : Array α} {p q : Precision}
    (hweights : .weights ∉ held.roles) (htargets : .targets ∉ held.roles)
    (h : held.withDeltas cells p = held.withDeltas cells q) : p = q := by
  cases held with
  | nothing | deltas =>
      cases h
      rfl
  | network a => exact absurd (Holding.weights_mem_roles.mpr ⟨a, rfl⟩) hweights
  | training t => exact absurd (Holding.targets_mem_roles.mpr rfl) htargets

theorem adapter_of_same (hb : b.Sound) {targets : Operand α} {rate : Except Fault Float}
    (h : ((prepareTraining targets rate).after (b.configure c)).held =
      ((prepareTraining targets rate).after b).held) :
    (Request.prepareTraining targets rate).Indifferent c b := by
  intro p rows settings hp hrows hsettings
  rcases hb.dense with ⟨settings', held, hmachine⟩
  rw [settings_of_dense hmachine] at hsettings
  cases hsettings
  have hmachine' : (b.configure c).machine = .dense c held := by rw [configure_of_dense hmachine]
  have hp' : (readTraining targets rate).outcome (b.configure c) = (.ok p, b.configure c) := by
    rw [ignores_readTraining, after, hp]
  rw [prepareTraining_eq, after, after, outcome_bind_of_ok hp, outcome_bind_of_ok hp',
    outcome_allocateTraining hmachine, outcome_allocateTraining hmachine', givenBatch_configure,
    size_configure, hrows] at h
  cases hgiven : b.givenBatch.rows with
  | ok n =>
      rw [hgiven] at h
      have htraining := congrArg Holding.training? h
      simp only [Backend.held, training?_withTraining] at htraining
      exact congrArg TrainingBuffers.precision (Option.some.inj htraining)
  | error f =>
      rw [hgiven] at h
      -- Too many rows for targets are too many for a network, so there is none.
      have hnone : ¬∃ rows, b.givenBatch.rows = .ok rows := by
        rintro ⟨n, hn⟩
        rw [hgiven] at hn
        cases hn
      have hfew := hb.rows
      rw [buffers_of_dense hmachine] at hfew
      exact precision_of_withDeltas (fun hmem => hnone (hfew (Or.inl hmem)))
        (fun hmem => hnone (hfew (Or.inr hmem))) h

theorem rank_of_same {deltas : Option (Operand α)}
    (h : Same ((Request.trainTick deltas).perform.outcome (b.configure c))
      ((Request.trainTick deltas).perform.outcome b)) :
    (Request.trainTick deltas).Indifferent c b := by
  intro given settings a t hgiven hmachine ht
  have hmachine' : (b.configure c).machine = .dense c (.network a) := by
    rw [configure_of_dense hmachine]
  have hgiven' : (readDeltas deltas).outcome (b.configure c) = (.ok given, b.configure c) := by
    rw [ignores_readDeltas, after, hgiven]
  have hbatch : (b.configure c).batch = b.batch := by
    rw [Backend.batch, Backend.batch, givenBatch_configure]
  have hrun : ∀ b' : Backend α, (Request.trainTick deltas).perform.outcome b' =
      (((trainTick deltas).outcome b').1.map fun _ => .nothing, (trainTick deltas).after b') :=
    outcome_bind_pure (trainTick deltas) fun _ => Answer.nothing
  rw [hrun, hrun, trainTick_eq, after, after, outcome_bind_of_ok hgiven, outcome_bind_of_ok hgiven',
    outcome_descend hmachine ht, outcome_descend hmachine' ht, size_configure, hbatch] at h
  have hresult := h.result
  have hheld := h.held
  cases hnew : a.trained b.size b.batch c.rank t given with
  | error f =>
      cases hold : a.trained b.size b.batch settings.rank t given with
      | error g =>
          rw [hnew, hold] at hresult
          cases hresult
          rfl
      | ok a' =>
          rw [hnew, hold] at hresult
          cases hresult
  | ok a' =>
      cases hold : a.trained b.size b.batch settings.rank t given with
      | error g =>
          rw [hnew, hold] at hresult
          cases hresult
      | ok a'' =>
          rw [hnew, hold] at hheld
          cases hheld
          rfl

theorem same_iff (hb : b.Sound) {r : Request α} (hdefers : r.Defers) :
    Same (r.perform.outcome (b.configure c)) (r.perform.outcome b) ↔ r.Indifferent c b := by
  refine ⟨fun h => ?_, fun h => (ignores_perform hb hdefers h).same⟩
  cases r with
  | prepareTraining targets rate =>
      refine adapter_of_same hb ?_
      have hheld := h.held
      rw [Request.perform, outcome_bind_pure, outcome_bind_pure] at hheld
      exact hheld
  | trainTick deltas => exact rank_of_same h
  | call | setTargets | setLearningRate | configure => trivial

/-!
## Runs
-/

/-- Whether each request finds the same in the settings as it would in others. -/
def Undisturbed (c : TrainingSettings) : List (Request α) → Backend α → Prop
  | [], _ => True
  | r :: rest, b => r.Indifferent c b ∧ Undisturbed c rest (r.perform.after b)

theorem same_record_iff (hb : b.Sound) {later : List (Request α)}
    (hdefers : ∀ r ∈ later, r.Defers) :
    List.Forall₂ Same (record later (b.configure c)) (record later b) ↔ Undisturbed c later b := by
  induction later generalizing b with
  | nil => exact iff_of_true .nil trivial
  | cons r rest ih =>
      have hr := hdefers r List.mem_cons_self
      have hrest := ih (leads_perform hb r).sound fun q hq => hdefers q (List.mem_cons_of_mem r hq)
      rw [record, record, List.forall₂_cons, same_iff hb hr, Undisturbed]
      refine and_congr_right fun hsame => ?_
      rw [← hrest, after_of_outcome (ignores_perform hb hr hsame)]

/--
Settings that a dense backend takes over show before the next network is prepared exactly if they
differ from the earlier ones in the precision of deltas that training is prepared with, or in what
their rank makes of an update that is applied.
-/
theorem configure_deferred_iff (host : Host) (requested : Value) (settings : TrainingSettings)
    (past : List (Request α)) (c : TrainingSettings) {later : List (Request α)}
    (hdefers : ∀ r ∈ later, r.Defers) :
    List.Forall₂ Same (record later ((run past (dense host requested settings)).configure c))
        (record later (run past (dense host requested settings))) ↔
      Undisturbed c later (run past (dense host requested settings)) :=
  same_record_iff (sound_run (sound_dense host requested settings) past) hdefers

/-!
## Settings that agree
-/

theorem Refill.settings {b' : Backend α} (h : b.Refill b') : b'.settings = b.settings := by
  cases h with
  | same => rfl
  | forward hmachine | deltas hmachine | train hmachine | targets hmachine | rate hmachine =>
      rw [settings_of_dense hmachine, settings_of_dense rfl]

theorem Primed.settings {b' : Backend α} (h : b.Primed b') : b'.settings = b.settings := by
  cases h with
  | same => rfl
  | deltas hmachine | buffers hmachine => rw [settings_of_dense hmachine, settings_of_dense rfl]

theorem settings_perform {r : Request α} (hdefers : r.Defers) (b : Backend α) :
    (r.perform.after b).settings = b.settings := by
  by_cases hfills : r.Fills
  · exact (refill_perform hfills b).settings
  cases r with
  | call call =>
      cases call with
      | init => exact (after_bind_pure init _ b ▸ stands_init b).settings
      | prepare => cases hdefers
      | forward | readParameters => exact absurd trivial hfills
      | release => exact (stands_release b).settings
  | prepareTraining targets rate => exact (primed_perform targets rate b).settings
  | setTargets | setLearningRate | trainTick => exact absurd trivial hfills
  | configure => cases hdefers

/-- Settings that agree on rank and deltas are told apart by no request. -/
theorem undisturbed_of_agree {settings : TrainingSettings} (hsettings : b.settings = some settings)
    (hadapter : c.adapterPrecision = settings.adapterPrecision) (hrank : c.rank = settings.rank)
    {later : List (Request α)} (hdefers : ∀ r ∈ later, r.Defers) : Undisturbed c later b := by
  induction later generalizing b with
  | nil => trivial
  | cons r rest ih =>
      have hr := hdefers r List.mem_cons_self
      refine ⟨?_, ih (by rw [settings_perform hr, hsettings]) fun q hq =>
        hdefers q (List.mem_cons_of_mem r hq)⟩
      cases r with
      | prepareTraining targets rate =>
          intro p rows settings' _ _ hsettings'
          rw [hsettings] at hsettings'
          cases hsettings'
          exact hadapter
      | trainTick deltas =>
          intro given settings' a t _ hmachine _
          rw [settings_of_dense hmachine] at hsettings
          cases hsettings
          rw [hrank]
      | call | setTargets | setLearningRate | configure => trivial

/-- Training is prepared and the network is trained on an input and some deltas. -/
def tuition : List (Request Float32) :=
  [.prepareTraining (.ok #[0.0]) (.ok 1.0), .call (.forward (.ok #[1.0])),
   .trainTick (some (.ok #[0.1])), .call .readParameters]

theorem defers_tuition : ∀ r ∈ tuition, r.Defers := by
  intro r hr
  simp only [tuition, List.mem_cons, List.not_mem_nil, or_false] at hr
  rcases hr with rfl | rfl | rfl | rfl <;> trivial

/-- Parameters that are to be stored in half precision are not, without another network. -/
theorem configure_deferred_iff_base :
    single.buffers = BufferRole.network ∧
      List.Forall₂ Same
        (record tuition (single.configure { TrainingSettings.default with basePrecision := .fp16 }))
        (record tuition single) := by
  refine ⟨by decide +kernel, ?_⟩
  refine (configure_deferred_iff {} (.text "cpu") .default setUp _ defers_tuition).mpr ?_
  have hsettings : single.settings = some .default := rfl
  exact undisturbed_of_agree hsettings rfl rfl defers_tuition

/-- Deltas that are to be stored in half precision are: the network learns something else. -/
theorem not_deferred_adapter :
    (run tuition
        (single.configure { TrainingSettings.default with adapterPrecision := .fp16 })).parameters ≠
      (run tuition single).parameters := by
  decide +kernel

end Backend
end Plexus
