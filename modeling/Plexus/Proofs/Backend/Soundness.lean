import Plexus.Proofs.Backend.Refill
import Plexus.Proofs.Backend.Rejection

/-!
# What is true of a dense backend throughout

Whatever a dense backend was asked for, an arena has all the cells of its network, and buffers for
training are held in the last stage only, unless a device was acquired in between.  Acquiring a
device, preparing a network or training and dropping a network keep this, and so does all that
fills buffers.
-/

namespace Plexus
namespace Backend

open Attempt

variable {α : Type} [Scalar α]

/-- What is true of a dense backend whatever it was asked for. -/
structure Sound (b : Backend α) : Prop where
  dense : ∃ settings held, b.machine = .dense settings held
  rows : .weights ∈ b.buffers ∨ .targets ∈ b.buffers → ∃ rows, b.givenBatch.rows = .ok rows
  training : .compiled ≤ b.stage → .weights ∈ b.buffers →
    (.targets ∈ b.buffers ↔ b.stage = .trainable)
  unset : b.stage = .uninitialized → b.buffers = []

/-- A backend whose network, if it has one, has all its cells. -/
def Fitting (b : Backend α) : Prop :=
  ∀ a, b.arena = some a → ∃ rows : Nat, b.givenBatch = .whole rows ∧ a.Sized b.size rows

section Empty

omit [Scalar α]

theorem buffers_of_dense {b : Backend α} {settings : TrainingSettings} {held : Holding α}
    (h : b.machine = .dense settings held) : b.buffers = held.roles := by
  rw [buffers, Backend.held, h]

theorem arena_of_dense {b : Backend α} {settings : TrainingSettings} {held : Holding α}
    (h : b.machine = .dense settings held) : b.arena = held.arena? := by
  rw [arena, Backend.held, h]

theorem buffers_of_unload {b b' : Backend α} (h : b'.machine = b.machine.unload) :
    b'.buffers = [] := by
  rw [buffers, Backend.held, h]
  cases b.machine with
  | dense settings held => rfl
  | graph claims built => rfl

theorem sound_of_empty {b : Backend α} (hdense : ∃ settings held, b.machine = .dense settings held)
    (hbuffers : b.buffers = []) : b.Sound where
  dense := hdense
  rows := by
    rw [hbuffers]
    rintro (hmem | hmem) <;> cases hmem
  training := by
    rw [hbuffers]
    intro _ hmem
    cases hmem
  unset := fun _ => hbuffers

theorem fitting_of_unload {b b' : Backend α} (h : b'.machine = b.machine.unload) :
    b'.Fitting := by
  intro a ha
  have hnone : b'.arena = none := by
    rw [arena, Backend.held, h]
    cases b.machine with
    | dense settings held => rfl
    | graph claims built => rfl
  rw [hnone] at ha
  cases ha

theorem dense_of_unload {b b' : Backend α} (h : b'.machine = b.machine.unload)
    (hdense : ∃ settings held, b.machine = .dense settings held) :
    ∃ settings held, b'.machine = .dense settings held := by
  rcases hdense with ⟨settings, held, hmachine⟩
  exact ⟨settings, .nothing, by rw [h, hmachine]; rfl⟩

theorem sound_dense (host : Host) (requested : Value) (settings : TrainingSettings) :
    (dense host requested settings : Backend α).Sound :=
  sound_of_empty ⟨settings, .nothing, rfl⟩ rfl

theorem fitting_dense (host : Host) (requested : Value) (settings : TrainingSettings) :
    (dense host requested settings : Backend α).Fitting := by
  intro a ha
  cases ha

theorem Steady.sound {b b' : Backend α} (h : b.Steady b') (hb : b.Sound) : b'.Sound where
  dense := h.dense hb.dense
  rows := by
    rw [h.buffers, h.batch]
    exact hb.rows
  training := by
    rw [h.buffers, h.stage]
    exact hb.training
  unset := by
    rw [h.buffers, h.stage]
    exact hb.unset

theorem fitting_withArena {b : Backend α} {settings : TrainingSettings} {a a' : Arena α}
    (h : b.machine = .dense settings (.network a)) (hb : b.Fitting)
    (hsized : ∀ rows : Nat, b.givenBatch = .whole rows → a.Sized b.size rows →
      a'.Sized b.size rows) : (b.withArena settings a').Fitting := by
  intro a'' ha''
  rcases hb a (arena_of_dense h) with ⟨rows, hbatch, ha⟩
  cases ha''
  exact ⟨rows, hbatch, hsized rows hbatch ha⟩

theorem fitting_withTraining {b : Backend α} {settings : TrainingSettings} {held : Holding α}
    {t t' : TrainingBuffers α} (h : b.machine = .dense settings held)
    (ht : held.training? = some t) (hb : b.Fitting)
    (hsized : ∀ rows : Nat, b.givenBatch = .whole rows → t.Sized b.size rows →
      t'.Sized b.size rows) :
    Fitting { b with machine := .dense settings (held.withTraining t') } := by
  cases held with
  | network a =>
      exact fitting_withArena h hb fun rows hbatch ha =>
        ha.withTraining (hsized rows hbatch (ha.training t ht))
  | nothing | deltas | training =>
      intro a ha
      cases ha

theorem fitting_configure (settings : TrainingSettings) {b : Backend α} (hb : b.Fitting) :
    (b.configure settings).Fitting := by
  unfold configure
  split
  · next hmachine =>
    intro a ha
    exact hb a ((arena_of_dense hmachine).trans ha)
  · exact hb

end Empty

/-- An approximation has as many cells as what it approximates. -/
def Approximating (α : Type) [Scalar α] : Prop :=
  ∀ n k (m : Array α), (Scalar.principal n n k m).size = n * n

theorem Refill.fitting (hprincipal : Approximating α) {b b' : Backend α} (h : b.Refill b')
    (hb : b.Fitting) : b'.Fitting := by
  have hfull : ∀ {rows : Nat} {given : Option (Array α)}, b.givenBatch = .whole rows →
      (∀ ds, given = some ds → b.fits ds = true) →
        ∀ ds, given = some ds → ds.size = b.size * rows :=
    fun hbatch hfits ds hds => (fits_iff_of_whole hbatch ds).mp (hfits ds hds)
  cases h with
  | same => exact hb
  | forward hmachine hfits =>
      refine fitting_withArena hmachine hb fun rows hbatch ha => ?_
      rw [batch_of_whole hbatch]
      exact ha.forward ((fits_iff_of_whole hbatch _).mp hfits)
  | deltas hmachine htraining hfits =>
      refine fitting_withArena hmachine hb fun rows hbatch ha => ?_
      rw [batch_of_whole hbatch]
      exact ha.keepDeltas htraining (hfull hbatch hfits)
  | train hmachine htraining hfits rank =>
      refine fitting_withArena hmachine hb fun rows hbatch ha => ?_
      rw [batch_of_whole hbatch]
      exact ha.train hprincipal htraining (hfull hbatch hfits) rank
  | targets hmachine htraining hfits =>
      exact fitting_withTraining hmachine htraining hb fun rows hbatch ht =>
        ⟨ht.deltas, (fits_iff_of_whole hbatch _).mp hfits⟩
  | rate hmachine htraining x =>
      exact fitting_withTraining hmachine htraining hb fun rows hbatch ht =>
        ⟨ht.deltas, ht.targets⟩

/-!
## Acquiring, preparing and dropping
-/

omit [Scalar α] in
theorem batch_of_checkNetwork {memory : Memory} {size : Value} {weights biases : Operand α}
    {batch : Except Fault Number} {activations : Except Fault (Option (List Value))}
    {n : Network α} (h : checkNetwork memory size weights biases batch activations = .ok n) :
    n.batch.less (.whole 1) = false := by
  rcases bind_eq_ok h with ⟨batch, -, h⟩
  rcases guard_eq_ok h with ⟨hbatch, h⟩
  rcases bind_eq_ok h with ⟨_, -, h⟩
  rcases bind_eq_ok h with ⟨_, -, h⟩
  rcases bind_eq_ok h with ⟨_, -, h⟩
  rcases guard_eq_ok h with ⟨-, h⟩
  rcases guard_eq_ok h with ⟨-, h⟩
  rcases bind_eq_ok h with ⟨_, -, h⟩
  rcases bind_eq_ok h with ⟨_, -, h⟩
  rcases bind_eq_ok h with ⟨_, -, h⟩
  cases h
  simpa using hbatch

theorem prepare_cases_of_sound {b : Backend α} (h : b.Sound) (size : Value)
    (weights biases : Operand α) (batch : Except Fault Number)
    (activations : Except Fault (Option (List Value))) :
    (∃ f, (prepare size weights biases batch activations).outcome b = (.error f, b) ∧
        ∀ g, ¬Request.Strains b g (.call (.prepare size weights biases batch activations))) ∨
      (∃ n f, Request.Strains b f (.call (.prepare size weights biases batch activations)) ∧
        (prepare size weights biases batch activations).outcome b = (.error f, b.cleared n)) ∨
      ∃ (n : Network α) (settings : TrainingSettings) (rows : Nat), Shaped n ∧
        Machine.hasRoom b.host.memory n.size rows = true ∧
        (prepare size weights biases batch activations).outcome b =
          (.ok (), b.loaded settings n.size rows n.weights n.biases n.codes) := by
  rw [outcome_prepare]
  by_cases hstage : b.stage < .ready
  · rw [if_pos hstage]
    refine Or.inl ⟨_, rfl, fun g hstrains => ?_⟩
    cases hstrains with
    | network hready => exact absurd hstage (Nat.not_lt.mpr hready)
  · rw [if_neg hstage]
    cases hcheck : checkNetwork b.host.memory size weights biases batch activations with
    | error f =>
        refine Or.inl ⟨f, rfl, fun g hstrains => ?_⟩
        cases hstrains with
        | network _ hpassed =>
            rw [hcheck] at hpassed
            cases hpassed
    | ok n =>
        dsimp only
        cases hload : b.machine.unload.load b.host.memory n with
        | error f =>
            exact Or.inr (Or.inl ⟨n, f, .network (Nat.not_lt.mp hstage) hcheck hload, rfl⟩)
        | ok m =>
            rcases h.dense with ⟨settings, held, hmachine⟩
            rw [hmachine] at hload
            rcases load_dense_eq_ok (batch_of_checkNetwork hcheck) hload with
              ⟨rows, hbatch, hroom, rfl⟩
            refine Or.inr (Or.inr ⟨n, settings, rows, shaped_of_checkNetwork hcheck, hroom, ?_⟩)
            rw [loaded, ← hbatch]
            rfl

section Loaded

variable {n : Network α} {settings : TrainingSettings} {rows : Nat}

theorem buffers_loaded (b : Backend α) :
    (b.loaded settings n.size rows n.weights n.biases n.codes).buffers = BufferRole.network :=
  rfl

theorem sound_loaded {b : Backend α} (hroom : Machine.hasRoom b.host.memory n.size rows = true) :
    (b.loaded settings n.size rows n.weights n.biases n.codes).Sound where
  dense := ⟨settings, _, rfl⟩
  rows := fun _ => ⟨rows, givenRows_whole (le_maxRows_of_hasRoom hroom)⟩
  training := by
    intro _ _
    rw [buffers_loaded]
    exact (by decide : .targets ∈ BufferRole.network ↔ Stage.compiled = .trainable)
  unset := by
    intro hstage
    cases hstage

theorem fitting_loaded (hshaped : Shaped n) (b : Backend α) :
    (b.loaded settings n.size rows n.weights n.biases n.codes).Fitting := by
  intro a ha
  cases ha
  exact ⟨rows, rfl, Arena.sized_allocate hshaped settings.basePrecision rows⟩

end Loaded

omit [Scalar α] in
theorem init_outcomes (b : Backend α) :
    (∃ f, (init : Attempt (Backend α) Unit).outcome b = (.error f, b)) ∨
      ∃ device, (init : Attempt (Backend α) Unit).outcome b =
        (.ok (), { b with device := some device, stage := .ready }) := by
  rw [init, outcome_get_bind]
  rcases (respects_of _).check _ b with hfails | ⟨device, -, hrun⟩
  · exact Or.inl hfails
  · exact Or.inr ⟨device, hrun⟩

omit [Scalar α] in
theorem Sound.equipped {b : Backend α} (h : b.Sound) (device : Device) :
    Sound { b with device := some device, stage := .ready } where
  dense := h.dense
  rows := h.rows
  training := by
    intro hstage
    exact absurd hstage (by decide : ¬Stage.compiled ≤ Stage.ready)
  unset := by
    intro hstage
    cases hstage

omit [Scalar α] in
theorem stage_release_lt (b : Backend α) : b.release.stage < .compiled := by
  show (if Stage.ready < b.stage then Stage.ready else b.stage) < .compiled
  split
  · exact (by decide : Stage.ready < Stage.compiled)
  · next hready => exact Nat.lt_succ_of_le (Nat.not_lt.mp hready)

omit [Scalar α] in
theorem Sound.release {b : Backend α} (h : b.Sound) : b.release.Sound :=
  sound_of_empty (dense_of_unload rfl h.dense) (buffers_of_unload rfl)

/-!
## Preparing training
-/

omit [Scalar α] in
theorem readTraining_eq_ok {targets : Operand α} {rate : Except Fault Float} {b b' : Backend α}
    {p : Array α × Float} (h : (readTraining targets rate).outcome b = (.ok p, b')) :
    targets = .ok p.1 ∧ .compiled ≤ b.stage ∧ b.fits p.1 = true := by
  rcases trainable_of_requireTraining h with ⟨-, h⟩
  rcases stage_of_require h with ⟨hstage, h⟩
  rcases outcome_bind_eq_ok h with ⟨ts, _, hcheck, h⟩
  rcases outcome_bind_eq_ok h with ⟨x, _, -, h⟩
  rcases checkTargets_eq_ok hcheck with ⟨htargets, hfits⟩
  cases h
  exact ⟨htargets, hstage, hfits⟩

/--
What a request to prepare training leaves of a dense backend: the same, deltas where there is no
network to train, or buffers for training.
-/
inductive Primed (b : Backend α) : Backend α → Prop where
  | same : Primed b b
  | deltas {settings : TrainingSettings} {held : Holding α}
      (hmachine : b.machine = .dense settings held) (hstage : .compiled ≤ b.stage)
      (cells : Array α) (precision : Precision) :
      Primed b { b with machine := .dense settings (held.withDeltas cells precision) }
  | buffers {settings : TrainingSettings} {held : Holding α} {ts : Array α} {rows : Nat}
      (hmachine : b.machine = .dense settings held) (hstage : .compiled ≤ b.stage)
      (hfits : b.fits ts = true) (hrows : b.givenBatch.rows = .ok rows) (precision : Precision)
      (x : Float) :
      Primed b { b with
        machine := .dense settings (held.withTraining (.allocate precision b.size rows ts x))
        stage := .trainable }

theorem primed_prepareTraining (targets : Operand α) (rate : Except Fault Float) :
    Respects Primed (prepareTraining targets rate : Attempt (Backend α) Unit) := by
  intro b
  rw [prepareTraining_eq]
  refine check_induction (respects_readTraining targets rate) .same fun p hp => ?_
  rcases readTraining_eq_ok hp with ⟨-, hstage, hfits⟩
  rw [after]
  cases hmachine : b.machine with
  | graph claims built =>
      rw [allocateTraining, outcome_get_bind, hmachine]
      exact .same
  | dense settings held =>
      rw [outcome_allocateTraining hmachine]
      split
      · exact .same
      · exact .deltas hmachine hstage _ _
      · next rows _ hrows => exact .buffers hmachine hstage hfits hrows _ _

theorem primed_perform (targets : Operand α) (rate : Except Fault Float) :
    Respects Primed (Request.prepareTraining targets rate).perform :=
  (primed_prepareTraining targets rate).bind_pure _

omit [Scalar α] in
theorem rows_whole_eq_ok {n rows : Nat} (h : Number.rows (.whole n) = .ok rows) : rows = n := by
  rw [Number.rows, Number.extent_whole] at h
  unfold Except.bind Value.arrayLength at h
  dsimp only at h
  split at h
  · cases h
  · cases h
    exact Int.toNat_natCast n

theorem Primed.sound {b b' : Backend α} (h : b.Primed b') (hb : b.Sound) : b'.Sound := by
  cases h with
  | same => exact hb
  | @deltas settings held hmachine hstage cells precision =>
      have hweights := Holding.weights_mem_roles_withDeltas held cells precision
      have htargets : .targets ∈ (held.withDeltas cells precision).roles ↔
          .targets ∈ held.roles := by
        rw [Holding.targets_mem_roles, Holding.targets_mem_roles, training?_withDeltas]
      have hbuffers := buffers_of_dense hmachine
      constructor
      · exact ⟨settings, _, rfl⟩
      · rintro (hmem | hmem)
        · exact hb.rows (Or.inl (hbuffers ▸ hweights.mp hmem))
        · exact hb.rows (Or.inr (hbuffers ▸ htargets.mp hmem))
      · intro _ hmem
        rw [← hb.training hstage (hbuffers ▸ hweights.mp hmem), hbuffers]
        exact htargets
      · intro hunset
        have hunset : b.stage = .uninitialized := hunset
        rw [hunset] at hstage
        exact absurd hstage (by decide)
  | @buffers settings held ts rows hmachine hstage hfits hrows precision x =>
      have htargets : .targets ∈
          (held.withTraining (.allocate precision b.size rows ts x)).roles := by
        rw [Holding.targets_mem_roles, training?_withTraining]
        rfl
      exact ⟨⟨settings, _, rfl⟩, fun _ => ⟨rows, hrows⟩, fun _ _ => iff_of_true htargets rfl,
        fun hunset => by cases hunset⟩

theorem Primed.fitting {b b' : Backend α} (h : b.Primed b') (hb : b.Fitting) : b'.Fitting := by
  cases h with
  | same => exact hb
  | @deltas settings held hmachine hstage cells precision =>
      intro a ha
      refine hb a ?_
      rw [arena_of_dense hmachine, ← arena?_withDeltas held cells precision]
      exact ha
  | @buffers settings held ts rows hmachine hstage hfits hrows precision x =>
      intro a' ha'
      cases held with
      | network a =>
          rcases hb a (arena_of_dense hmachine) with ⟨n, hbatch, ha⟩
          rw [hbatch] at hrows
          have hn := rows_whole_eq_ok hrows
          subst hn
          cases ha'
          exact ⟨rows, hbatch, ha.withTraining
            (Arena.sized_allocateTraining ((fits_iff_of_whole hbatch ts).mp hfits) precision x)⟩
      | nothing | deltas | training => cases ha'

end Backend
end Plexus
