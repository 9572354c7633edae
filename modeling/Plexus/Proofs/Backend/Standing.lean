import Plexus.Backend.Select
import Plexus.Proofs.Backend.Lifecycle

/-!
# What operations leave of a backend

A tick changes numbers in the buffers of a backend.  Its stage, its kind, the settings it works
with and the rate it trains with stay as they are, and so do its parameters, unless the tick is
one of training that succeeds.  What stays at a tick changes when a network is prepared, when
training is prepared and when the network is dropped, and each of these operations brings the
backend to a known stage or leaves it in the one it was in.
-/

namespace Plexus

/-- A backend that can be trained is at the last of its stages. -/
theorem Stage.eq_trainable_of_le {s : Stage} (h : .trainable ≤ s) : s = .trainable := by
  cases s with
  | trainable => rfl
  | uninitialized | ready | compiled => exact absurd h (by decide)

namespace Backend

open Attempt

variable {α β : Type}

/-- The rate that the updates of a backend are made with. -/
def rate? (b : Backend α) : Option α := b.held.training?.map TrainingBuffers.rate

/-- The weights and the biases of the network that a dense backend runs. -/
def parameters (b : Backend α) : Option (Array α × Array α) :=
  b.arena.map fun a => (a.weights, a.biases)

theorem Holds.rate?_eq {settings : TrainingSettings} {rows : Nat} {a : Arena α}
    {t : TrainingBuffers α} {b : Backend α} (h : b.Holds settings rows a)
    (ht : a.training = some t) :
    b.rate? = some t.rate := by
  rw [rate?, Backend.held, h.machine, Holding.training?, ht, Option.map_some]

/-- A backend that is set up as another one was, or further. -/
structure Stands (b b' : Backend α) : Prop where
  host : b'.host = b.host
  settings : b'.settings = b.settings
  ready : .ready ≤ b.stage → .ready ≤ b'.stage

/-- A backend that another one has come to by ticks. -/
structure Ticked (b b' : Backend α) : Prop where
  host : b'.host = b.host
  stage : b'.stage = b.stage
  settings : b'.settings = b.settings
  rate : b'.rate? = b.rate?

/-- A backend that another one has come to by ticks that did not train it. -/
structure Calm (b b' : Backend α) : Prop extends Ticked b b' where
  parameters : b'.parameters = b.parameters

instance : IsPreorder (Backend α) Stands where
  refl _ := ⟨rfl, rfl, id⟩
  trans _ _ _ h h' := ⟨h'.host.trans h.host, h'.settings.trans h.settings,
    fun hready => h'.ready (h.ready hready)⟩

instance : IsPreorder (Backend α) Ticked where
  refl _ := ⟨rfl, rfl, rfl, rfl⟩
  trans _ _ _ h h' := ⟨h'.host.trans h.host, h'.stage.trans h.stage,
    h'.settings.trans h.settings, h'.rate.trans h.rate⟩

instance : IsPreorder (Backend α) Calm where
  refl _ := ⟨refl _, rfl⟩
  trans _ _ _ h h' :=
    ⟨IsTrans.trans _ _ _ h.toTicked h'.toTicked, h'.parameters.trans h.parameters⟩

theorem Ticked.stands {b b' : Backend α} (h : b.Ticked b') : b.Stands b' :=
  ⟨h.host, h.settings, fun hready => h.stage.symm ▸ hready⟩

theorem settings_of_dense {b : Backend α} {settings : TrainingSettings} {held : Holding α}
    (h : b.machine = .dense settings held) :
    b.settings = some settings := by
  rw [Backend.settings, h]

theorem ticked_of_dense {b b' : Backend α} {settings : TrainingSettings} {held held' : Holding α}
    (hhost : b'.host = b.host) (hstage : b'.stage = b.stage)
    (h : b.machine = .dense settings held) (h' : b'.machine = .dense settings held')
    (hrate : held'.training?.map TrainingBuffers.rate =
      held.training?.map TrainingBuffers.rate) :
    b.Ticked b' where
  host := hhost
  stage := hstage
  settings := by rw [settings_of_dense h, settings_of_dense h']
  rate := by rw [rate?, rate?, Backend.held, Backend.held, h, h', hrate]

theorem parameters_of_dense {b : Backend α} {settings : TrainingSettings} {held : Holding α}
    (h : b.machine = .dense settings held) :
    b.parameters = held.arena?.map fun a => (a.weights, a.biases) := by
  rw [parameters, arena, Backend.held, h]

theorem training?_withTraining (held : Holding α) (t : TrainingBuffers α) :
    (held.withTraining t).training? = some t := by
  cases held with
  | nothing | network | deltas | training => rfl

/-- Deltas by themselves are no buffers to train with. -/
theorem training?_withDeltas (held : Holding α) (cells : Array α) (precision : Precision) :
    (held.withDeltas cells precision).training? = held.training? := by
  cases held with
  | nothing | network | deltas | training => rfl

theorem arena?_withDeltas (held : Holding α) (cells : Array α) (precision : Precision) :
    (held.withDeltas cells precision).arena? = held.arena? := by
  cases held with
  | nothing | network | deltas | training => rfl

/-- Buffers of training do not touch the network. -/
theorem parameters_withTraining {b b' : Backend α} {settings settings' : TrainingSettings}
    {held : Holding α} {t : TrainingBuffers α} (h : b.machine = .dense settings held)
    (h' : b'.machine = .dense settings' (held.withTraining t)) :
    b'.parameters = b.parameters := by
  rw [parameters_of_dense h, parameters_of_dense h']
  cases held with
  | nothing | network | deltas | training => rfl

/-!
## Checks
-/

section Checks

variable {R : Backend α → Backend α → Prop} [IsPreorder (Backend α) R]

theorem respects_require (needed : Stage) (operation : String) :
    Respects R (require needed operation : Attempt (Backend α) Unit) := by
  refine respects_get_bind fun b => ?_
  split
  · exact respects_throw _ b
  · exact respects_pure _ b

theorem respects_requireTraining :
    Respects R (requireTraining : Attempt (Backend α) Unit) := by
  refine respects_get_bind fun b => ?_
  split
  · exact respects_throw _ b
  · exact respects_pure _ b

theorem respects_checkTargets (targets : Operand α) :
    Respects R (checkTargets targets : Attempt (Backend α) (Array α)) := by
  refine (respects_of targets).bind fun ts => respects_get_bind fun b => ?_
  split
  · exact respects_throw _ b
  · exact respects_pure _ b

theorem respects_checkDeltas (deltas : Option (Operand α)) :
    Respects R (checkDeltas deltas : Attempt (Backend α) (Option (Array α))) := by
  cases deltas with
  | none => exact respects_pure none
  | some ds => exact (respects_checkTargets ds).bind fun xs => respects_pure (some xs)

end Checks

/-!
## Ticks
-/

theorem calm_setTargets (targets : Operand α) :
    Respects Calm (setTargets targets : Attempt (Backend α) Unit) := by
  refine respects_requireTraining.bind fun _ => (respects_require _ _).bind fun _ => ?_
  refine (respects_checkTargets targets).bind fun ts => respects_get_bind fun b => ?_
  cases hmachine : b.machine with
  | graph claims built => exact refl b
  | dense settings held =>
      dsimp only
      cases ht : held.training? with
      | none => exact refl b
      | some t =>
          refine ⟨ticked_of_dense rfl rfl hmachine rfl ?_, parameters_withTraining hmachine rfl⟩
          rw [training?_withTraining, ht]
          rfl

theorem ticked_setTargets (targets : Operand α) :
    Respects Ticked (setTargets targets : Attempt (Backend α) Unit) :=
  fun b => (calm_setTargets targets b).toTicked

variable [Scalar α]

theorem ticked_readParameters :
    Respects Ticked (readParameters : Attempt (Backend α) (Array α × Array α)) := by
  refine (respects_require _ _).bind fun _ => respects_get_bind fun b => ?_
  split
  · exact refl b
  · exact refl b
  · exact refl b

theorem calm_forward (inputs : Operand α) :
    Respects Calm (forward inputs : Attempt (Backend α) (Array α)) := by
  refine (respects_require _ _).bind fun _ => (respects_of inputs).bind fun xs => ?_
  refine respects_get_bind fun b => ?_
  dsimp only
  by_cases hfits : (!b.fits xs) = true
  · rw [if_pos hfits]
    exact refl b
  · rw [if_neg hfits]
    split
    · next settings a hmachine =>
      refine ⟨ticked_of_dense rfl rfl hmachine rfl rfl, ?_⟩
      rw [parameters_of_dense hmachine, parameters_of_dense rfl]
      rfl
    · exact ((respects_of _).bind fun rows => respects_pure _) b
    · exact refl b

theorem ticked_forward (inputs : Operand α) :
    Respects Ticked (forward inputs : Attempt (Backend α) (Array α)) :=
  fun b => (calm_forward inputs b).toTicked

theorem ticked_descend (given : Option (Array α)) :
    Respects Ticked (descend given : Attempt (Backend α) Unit) := by
  refine respects_get_bind fun b => ?_
  split
  · next settings a hmachine =>
    split
    · next t ht =>
      have hrate : ∀ {a' : Arena α}, a'.training.map TrainingBuffers.rate = some t.rate →
          b.Ticked { b with machine := .dense settings (.network a') } := by
        intro a' ha'
        refine ticked_of_dense rfl rfl hmachine rfl ?_
        rw [Holding.training?, Holding.training?, ha', ht, Option.map_some]
      refine bind_induction (I := b.Ticked) (hrate rfl) fun _ b₁ h₁ => ?_
      refine bind_induction (I := b.Ticked) h₁ fun _ b₂ h₂ => ?_
      refine bind_induction (I := b.Ticked) h₂ fun rank b₃ _ => ?_
      exact hrate rfl
    · exact refl b
  · exact refl b
  · exact refl b

theorem ticked_trainTick (deltas : Option (Operand α)) :
    Respects Ticked (trainTick deltas : Attempt (Backend α) Unit) :=
  respects_requireTraining.bind fun _ => (respects_require _ _).bind fun _ =>
    (respects_checkDeltas deltas).bind ticked_descend

/-- A backend that another one has come to without any parameter having been moved. -/
def Unmoved (b b' : Backend α) : Prop :=
  b' = b ∨ ∃ settings a a', b.machine = .dense settings (.network a) ∧
    b' = { b with machine := .dense settings (.network a') } ∧
      a'.weights = a.weights ∧ a'.biases = a.biases

/-- Gradients are checked before any parameter is moved. -/
theorem unmoved_of_descend_eq_error {given : Option (Array α)} {b b' : Backend α} {f : Fault}
    (h : (descend given).outcome b = (.error f, b')) : b.Unmoved b' := by
  rw [descend, outcome_get_bind] at h
  split at h
  · next settings a hmachine =>
    split at h
    · next t ht =>
      rw [outcome_set_bind] at h
      rcases (respects_of _).check_eq_error h with rfl | ⟨_, -, h⟩
      · exact Or.inr ⟨settings, a, _, hmachine, rfl, rfl, rfl⟩
      rcases (respects_of _).check_eq_error h with rfl | ⟨_, -, h⟩
      · exact Or.inr ⟨settings, a, _, hmachine, rfl, rfl, rfl⟩
      cases h
    · cases h
      exact Or.inl rfl
  · rw [outcome_of, Prod.mk.injEq] at h
    exact Or.inl h.2.symm
  · cases h
    exact Or.inl rfl

theorem unmoved_of_trainTick_eq_error {deltas : Option (Operand α)} {b b' : Backend α}
    {f : Fault} (h : (trainTick deltas).outcome b = (.error f, b')) : b.Unmoved b' := by
  rcases respects_requireTraining.check_eq_error h with rfl | ⟨_, -, h⟩
  · exact Or.inl rfl
  rcases (respects_require _ _).check_eq_error h with rfl | ⟨_, -, h⟩
  · exact Or.inl rfl
  rcases (respects_checkDeltas deltas).check_eq_error h with rfl | ⟨given, -, h⟩
  · exact Or.inl rfl
  exact unmoved_of_descend_eq_error h

/-- A training tick that fails has not moved any parameter. -/
theorem parameters_of_trainTick_eq_error {deltas : Option (Operand α)} {b b' : Backend α}
    {f : Fault} (h : (trainTick deltas).outcome b = (.error f, b')) :
    b'.parameters = b.parameters := by
  rcases unmoved_of_trainTick_eq_error h with rfl | ⟨settings, a, a', hmachine, rfl, hw, hb⟩
  · rfl
  · rw [parameters_of_dense hmachine, parameters_of_dense rfl]
    simp only [Holding.arena?, Option.map_some, hw, hb]

/-!
## Operations that need a stage
-/

omit [Scalar α] in
/-- What begins with a check of the stage gets past it only in the stage or a later one. -/
theorem stage_of_require {needed : Stage} {operation : String}
    {next : Unit → Attempt (Backend α) β} {b b' : Backend α} {r : β}
    (h : (require needed operation >>= next).outcome b = (.ok r, b')) :
    needed ≤ b.stage ∧ (next ()).outcome b = (.ok r, b') := by
  rcases outcome_bind_eq_ok h with ⟨_, b₁, hcheck, hnext⟩
  rw [outcome_require] at hcheck
  split at hcheck
  · cases hcheck
  · next hstage =>
    cases hcheck
    exact ⟨Nat.not_lt.mp hstage, hnext⟩

omit [Scalar α] in
theorem trainable_of_requireTraining {next : Unit → Attempt (Backend α) β} {b b' : Backend α}
    {r : β} (h : (requireTraining >>= next).outcome b = (.ok r, b')) :
    b.trainable = true ∧ (next ()).outcome b = (.ok r, b') := by
  rcases outcome_bind_eq_ok h with ⟨_, b₁, hcheck, hnext⟩
  rw [requireTraining, outcome_get_bind] at hcheck
  split at hcheck
  · cases hcheck
  · next htrainable =>
    cases hcheck
    exact ⟨by simpa using htrainable, hnext⟩

/-- A backend that has trained had its training prepared. -/
theorem stage_of_trainTick {deltas : Option (Operand α)} {b b' : Backend α}
    (h : (trainTick deltas).outcome b = (.ok (), b')) : .trainable ≤ b.stage :=
  (stage_of_require (trainable_of_requireTraining h).2).1

/-!
## Preparing training
-/

/-- A backend after training could not be prepared: at most, it holds deltas by themselves. -/
def Unprepared (b b' : Backend α) : Prop :=
  b' = b ∨ ∃ settings held cells precision, b.machine = .dense settings held ∧
    b' = { b with machine := .dense settings (held.withDeltas cells precision) }

omit [Scalar α] in
theorem Unprepared.calm {b b' : Backend α} (h : b.Unprepared b') : b.Calm b' := by
  rcases h with rfl | ⟨settings, held, cells, precision, hmachine, rfl⟩
  · exact refl b'
  · refine ⟨ticked_of_dense rfl rfl hmachine rfl ?_, ?_⟩
    · rw [training?_withDeltas]
    · rw [parameters_of_dense hmachine, parameters_of_dense rfl, arena?_withDeltas]

/-- Preparing training is refused, or a dense backend can train at the rate. -/
theorem prepareTraining_cases (targets : Operand α) (rate : Except Fault Float) (b : Backend α) :
    (∃ f b', (prepareTraining targets rate).outcome b = (.error f, b') ∧ b.Unprepared b') ∨
      ∃ settings held t x, b.machine = .dense settings held ∧ rate = .ok x ∧
        t.rate = Scalar.ofFloat x ∧
        (prepareTraining targets rate).outcome b =
          (.ok (), { b with
            machine := .dense settings (held.withTraining t), stage := .trainable }) := by
  have hrefused : ∀ {step : Attempt (Backend α) Unit}, (∃ f, step.outcome b = (.error f, b)) →
      ∃ f b', step.outcome b = (.error f, b') ∧ b.Unprepared b' := by
    rintro step ⟨f, hfails⟩
    exact ⟨f, b, hfails, Or.inl rfl⟩
  rw [prepareTraining]
  rcases respects_requireTraining.check _ b with hfails | ⟨_, -, hrun⟩
  · exact Or.inl (hrefused hfails)
  rw [hrun]
  rcases (respects_require .compiled "prepare_training").check _ b with hfails | ⟨_, -, hrun⟩
  · exact Or.inl (hrefused hfails)
  rw [hrun]
  rcases (respects_checkTargets targets).check _ b with hfails | ⟨ts, -, hrun⟩
  · exact Or.inl (hrefused hfails)
  rw [hrun]
  cases rate with
  | error f => exact Or.inl ⟨f, b, outcome_of_error_bind f _ b, Or.inl rfl⟩
  | ok x =>
      rw [outcome_of_ok_bind, allocateTraining, outcome_get_bind]
      cases hmachine : b.machine with
      | graph claims built => exact Or.inl ⟨_, b, rfl, Or.inl rfl⟩
      | dense settings held =>
          dsimp only
          rcases (respects_of (Machine.rows b.givenBatch)).check _ b with hfails | ⟨_, -, hrun⟩
          · exact Or.inl (hrefused hfails)
          rw [hrun, outcome_set_bind]
          cases hrows : b.givenBatch.rows with
          | error f =>
              rw [outcome_of_error_bind]
              exact Or.inl ⟨f, _, rfl, Or.inr ⟨settings, held, _, _, hmachine, rfl⟩⟩
          | ok rows =>
              rw [outcome_of_ok_bind, outcome_set]
              exact Or.inr ⟨settings, held, .allocate settings.adapterPrecision b.size rows ts x, x,
                rfl, rfl, rfl, rfl⟩

omit [Scalar α] in
/-- Targets are refused and change nothing, or training was prepared in a dense backend. -/
theorem setTargets_eq_ok {targets : Operand α} {b b' : Backend α}
    (h : (setTargets targets).outcome b = (.ok (), b')) :
    .trainable ≤ b.stage ∧ b.settings.isSome = true := by
  rcases trainable_of_requireTraining h with ⟨-, h⟩
  rcases stage_of_require h with ⟨hstage, h⟩
  refine ⟨hstage, ?_⟩
  rcases (respects_checkTargets targets).check _ b with ⟨f, hfails⟩ | ⟨ts, -, hrun⟩
  · rw [hfails] at h
    cases h
  · rw [hrun, outcome_get_bind] at h
    cases hmachine : b.machine with
    | dense settings held => rw [settings_of_dense hmachine]; rfl
    | graph claims built =>
        rw [hmachine] at h
        cases h

/-!
## Preparing and dropping a network
-/

section Release

omit [Scalar α]

theorem stage_release (b : Backend α) : b.release.stage ≠ .trainable := by
  show (if Stage.ready < b.stage then Stage.ready else b.stage) ≠ .trainable
  split
  · exact (by decide : Stage.ready ≠ Stage.trainable)
  · next hready =>
      intro hstage
      rw [hstage] at hready
      exact hready (by decide)

/-- Only a backend that never had a device has none when its network is dropped. -/
theorem ready_release {b : Backend α} (h : .ready ≤ b.stage) : .ready ≤ b.release.stage := by
  show Stage.ready ≤ (if Stage.ready < b.stage then Stage.ready else b.stage)
  split
  · exact Nat.le_refl _
  · exact h

theorem settings_of_unload {b b' : Backend α} (h : b'.machine = b.machine.unload) :
    b'.settings = b.settings := by
  rw [Backend.settings, Backend.settings, h]
  cases b.machine with
  | dense settings held => rfl
  | graph claims built => rfl

theorem stands_release (b : Backend α) : b.Stands b.release :=
  ⟨rfl, settings_of_unload rfl, ready_release⟩

end Release

/-- Loading a network keeps the kind of the backend. -/
theorem settings_of_load {memory : Memory} {n : Network α} {b b' : Backend α}
    (h : b.machine.load memory n = .ok b'.machine) :
    b'.settings = b.settings := by
  rw [Backend.settings, Backend.settings]
  cases hmachine : b.machine with
  | graph claims built =>
      rw [hmachine, Machine.load] at h
      rw [← Except.ok.inj h]
  | dense settings held =>
      rw [hmachine, Machine.load] at h
      rcases bind_eq_ok h with ⟨rows, -, h⟩
      rcases guard_eq_ok h with ⟨-, h⟩
      rw [← Except.ok.inj h]

theorem stands_prepare (size : Value) (weights biases : Operand α) (batch : Except Fault Number)
    (activations : Except Fault (Option (List Value))) :
    Respects Stands (prepare size weights biases batch activations) := by
  refine (respects_require _ _).bind fun _ => respects_get_bind fun old => ?_
  refine ((respects_of _).bind fun n => ?_) old
  refine (respects_modify fun b => ⟨rfl, settings_of_unload rfl, id⟩).bind fun _ => ?_
  refine respects_get_bind fun b => ?_
  cases hload : b.machine.load old.host.memory n with
  | error f => exact refl b
  | ok machine =>
      rw [after, outcome_of_ok_bind, outcome_modify]
      exact ⟨rfl, settings_of_load hload, fun _ => (by decide : Stage.ready ≤ Stage.compiled)⟩

/-- A backend that has been prepared cannot train yet. -/
theorem stage_of_prepare {size : Value} {weights biases : Operand α}
    {batch : Except Fault Number} {activations : Except Fault (Option (List Value))}
    {b b' : Backend α}
    (h : (prepare size weights biases batch activations).outcome b = (.ok (), b')) :
    b'.stage = .compiled := by
  rcases outcome_bind_eq_ok h with ⟨_, _, -, h⟩
  rcases outcome_bind_eq_ok h with ⟨_, _, -, h⟩
  rcases outcome_bind_eq_ok h with ⟨n, _, -, h⟩
  rcases outcome_bind_eq_ok h with ⟨_, _, -, h⟩
  rcases outcome_bind_eq_ok h with ⟨_, _, -, h⟩
  rcases outcome_bind_eq_ok h with ⟨machine, _, -, h⟩
  cases h
  rfl

/-!
## Setting a backend up
-/

section Setup

omit [Scalar α]

theorem stands_init : Respects Stands (init : Attempt (Backend α) Unit) := by
  refine respects_get_bind fun b => ?_
  refine bind_induction (I := b.Stands) (refl b) fun device t ht => ?_
  exact ⟨rfl, rfl, fun _ => Nat.le_refl _⟩

theorem stage_of_init {b b' : Backend α} (h : init.outcome b = (.ok (), b')) :
    b'.stage = .ready := by
  rw [init, outcome_get_bind] at h
  rcases outcome_bind_eq_ok h with ⟨device, _, -, h⟩
  cases h
  rfl

/-- Only a dense backend takes settings over. -/
theorem settings_configure (settings : TrainingSettings) (b : Backend α) :
    (b.configure settings).settings = b.settings.map fun _ => settings := by
  cases hmachine : b.machine with
  | dense old held => simp only [configure, Backend.settings, hmachine, Option.map_some]
  | graph claims built => simp only [configure, Backend.settings, hmachine, Option.map_none]

theorem stage_configure (settings : TrainingSettings) (b : Backend α) :
    (b.configure settings).stage = b.stage := by
  cases hmachine : b.machine with
  | dense old held => simp only [configure, hmachine]
  | graph claims built => simp only [configure, hmachine]

theorem host_configure (settings : TrainingSettings) (b : Backend α) :
    (b.configure settings).host = b.host := by
  cases hmachine : b.machine with
  | dense old held => simp only [configure, hmachine]
  | graph claims built => simp only [configure, hmachine]

theorem rate?_configure (settings : TrainingSettings) (b : Backend α) :
    (b.configure settings).rate? = b.rate? := by
  cases hmachine : b.machine with
  | dense old held => simp only [configure, rate?, Backend.held, hmachine]
  | graph claims built => simp only [configure, rate?, Backend.held, hmachine]

theorem eq_of_guarded {c : Prop} [Decidable c] {f : Fault} {r r' : β}
    (h : (if c then Except.error f else Except.ok r) = .ok r') : r = r' := by
  split at h
  · cases h
  · cases h
    rfl

theorem new_of_select {host : Host} {settings : EngineSettings} {training : TrainingSettings}
    {capabilities : Capabilities} {b : Backend α}
    (h : select host settings training capabilities = .ok b) :
    b.host = host ∧ b.stage = .uninitialized := by
  cases hkind : settings.backend with
  | graph =>
      simp only [select, hkind] at h
      rw [← eq_of_guarded h]
      exact ⟨rfl, rfl⟩
  | dense =>
      simp only [select, hkind] at h
      cases h
      exact ⟨rfl, rfl⟩
  | auto =>
      simp only [select, hkind] at h
      split at h
      · cases h
        exact ⟨rfl, rfl⟩
      · split at h
        · cases h
          exact ⟨rfl, rfl⟩
        · cases h

end Setup

end Backend
end Plexus
