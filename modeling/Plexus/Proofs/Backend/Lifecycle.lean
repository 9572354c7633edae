import Plexus.Backend.Basic
import Plexus.Compiled.Basic
import Plexus.Proofs.Attempt

/-!
# What a dense backend does in each stage

For a dense backend, what each operation can come to: the fault it ends in and what it left
behind, or the backend it leaves.  The facts on engines are derived from these.
-/

namespace Plexus
namespace Backend

open Attempt

variable {α : Type}

theorem trainable_of_dense {b : Backend α} {settings : TrainingSettings} {held : Holding α}
    (h : b.machine = .dense settings held) :
    b.trainable = true := by
  rw [trainable, h]

theorem outcome_require (needed : Stage) (operation : String) (b : Backend α) :
    (require needed operation : Attempt (Backend α) Unit).outcome b =
      if b.stage < needed then
        (.error (.stageTooEarly b.name b.stage operation needed), b)
      else (.ok (), b) := by
  simp only [require, outcome_get_bind, outcome_ite]
  rfl

theorem outcome_require_of_le {needed : Stage} {b : Backend α} (h : needed ≤ b.stage)
    (operation : String) :
    (require needed operation : Attempt (Backend α) Unit).outcome b = (.ok (), b) := by
  rw [outcome_require, if_neg]
  exact Nat.not_lt.mpr h

theorem outcome_requireTraining {b : Backend α} (h : b.trainable = true) :
    (requireTraining : Attempt (Backend α) Unit).outcome b = (.ok (), b) := by
  simp only [requireTraining, outcome_get_bind, h, Bool.not_true, outcome_ite]
  rfl

/-!
## Setting a backend up
-/

/-- A dense backend with a device that works with some settings. -/
structure Equipped (settings : TrainingSettings) (b : Backend α) : Prop where
  dense : ∃ held, b.machine = .dense settings held
  ready : .ready ≤ b.stage

theorem Equipped.release {settings : TrainingSettings} {b : Backend α}
    (h : b.Equipped settings) : b.release.Equipped settings where
  dense := by
    rcases h.dense with ⟨held, hheld⟩
    exact ⟨.nothing, by rw [Backend.release, hheld]; rfl⟩
  ready := by
    unfold Backend.release
    by_cases hstage : Stage.ready < b.stage
    · rw [if_pos hstage]
      exact Nat.le_refl _
    · rw [if_neg hstage]
      exact h.ready

theorem Equipped.configure {old settings : TrainingSettings} {b : Backend α}
    (h : b.Equipped old) : (b.configure settings).Equipped settings := by
  rcases h.dense with ⟨held, hheld⟩
  rw [Backend.configure, hheld]
  exact ⟨⟨held, rfl⟩, h.ready⟩

/-- A device is refused, or the backend is set up. -/
theorem init_cases {settings : TrainingSettings} {b : Backend α} {held : Holding α}
    (h : b.machine = .dense settings held) :
    (∃ f, (init : Attempt (Backend α) Unit).outcome b = (.error f, b)) ∨
      ∃ b', (init : Attempt (Backend α) Unit).outcome b = (.ok (), b') ∧
        b'.Equipped settings := by
  simp only [init, outcome_get_bind, h]
  cases hdevice : Device.resolve b.host b.requested false with
  | error f =>
      rw [outcome_of_error_bind]
      exact Or.inl ⟨f, rfl⟩
  | ok device =>
      rw [outcome_of_ok_bind, outcome_set]
      exact Or.inr ⟨_, rfl, ⟨held, rfl⟩, Nat.le_refl _⟩

/-!
## A backend that holds a network
-/

theorem le_maxRows_of_hasRoom {memory : Memory} {size rows : Nat}
    (h : Machine.hasRoom memory size rows = true) : rows ≤ Machine.maxRows := by
  simp only [Machine.hasRoom, Bool.and_eq_true, decide_eq_true_eq] at h
  exact h.1

theorem machineRows_whole {rows : Nat} (h : rows ≤ Machine.maxRows) :
    Machine.rows (.whole rows) = .ok rows := by
  have hlimit : ¬((Machine.rowLimit : Int) ≤ (rows : Int)) := by
    simp only [Machine.maxRows, Machine.rowLimit] at h ⊢
    omega
  simp only [Machine.rows, Number.extent_whole, bind, Except.bind, if_neg hlimit]
  rfl

theorem givenRows_whole {rows : Nat} (h : rows ≤ Machine.maxRows) :
    Number.rows (.whole rows) = .ok rows := by
  have hlimit : ¬((rows : Int) < 0 ∨ Value.byteLimit ≤ rows * 4) := by
    simp only [Machine.maxRows, Value.byteLimit] at h ⊢
    omega
  rw [Number.rows, Number.extent_whole]
  simp only [Except.bind, Value.arrayLength, Int.toNat_natCast, if_neg hlimit]

/-- An operand fits if it has a cell for every slot of every row. -/
theorem fits_iff_of_whole {b : Backend α} {rows : Nat} (h : b.givenBatch = .whole rows)
    (xs : Array α) : b.fits xs = true ↔ xs.size = b.size * rows := by
  rw [fits, cells, h]
  simp only [Number.same_whole_whole, Number.count_whole, Int.toNat_natCast, beq_iff_eq]
  omega

theorem batch_of_whole {b : Backend α} {rows : Nat} (h : b.givenBatch = .whole rows) :
    b.batch = rows := by
  rw [Backend.batch, h, Number.count_whole, Int.toNat_natCast]

/-- A dense backend that runs a network on some rows, and has it in an arena. -/
structure Holds (settings : TrainingSettings) (rows : Nat) (a : Arena α) (b : Backend α) :
    Prop where
  machine : b.machine = .dense settings (.network a)
  stage : b.stage = if a.training.isSome then .trainable else .compiled
  batch : b.givenBatch = .whole rows
  room : Machine.hasRoom b.host.memory b.size rows = true
  targets : ∀ t, a.training = some t → t.targets.size = b.size * rows
  precision : a.precision = settings.basePrecision

/-- The backend with another arena. -/
def withArena (settings : TrainingSettings) (a : Arena α) (b : Backend α) : Backend α :=
  { b with machine := .dense settings (.network a) }

/-- The backend with training prepared. -/
def withTraining (settings : TrainingSettings) (a : Arena α) (t : TrainingBuffers α)
    (b : Backend α) : Backend α :=
  { b with
    machine := .dense settings (.network { a with training := some t })
    stage := .trainable }

namespace Holds

variable {settings : TrainingSettings} {rows : Nat} {a : Arena α} {b : Backend α}

theorem withArena_self (h : b.Holds settings rows a) : b.withArena settings a = b := by
  rw [withArena, ← h.machine]

theorem equipped (h : b.Holds settings rows a) : b.Equipped settings where
  dense := ⟨_, h.machine⟩
  ready := by
    rw [h.stage]
    split
    · exact (by decide : Stage.ready ≤ Stage.trainable)
    · exact (by decide : Stage.ready ≤ Stage.compiled)

theorem compiled (h : b.Holds settings rows a) : .compiled ≤ b.stage := by
  rw [h.stage]
  split
  · exact (by decide : Stage.compiled ≤ Stage.trainable)
  · exact (by decide : Stage.compiled ≤ Stage.compiled)

theorem isSome_training (h : b.Holds settings rows a) (hstage : ¬b.stage < .trainable) :
    a.training.isSome = true := by
  rw [h.stage] at hstage
  cases ht : a.training with
  | some t => rfl
  | none =>
      rw [ht] at hstage
      exact absurd (by decide : Stage.compiled < Stage.trainable) hstage

/-- The arena can be replaced by one with the same targets and precision. -/
theorem replace {a' : Arena α} (h : b.Holds settings rows a)
    (ht : a'.training.map TrainingBuffers.targets = a.training.map TrainingBuffers.targets)
    (hprecision : a'.precision = a.precision) :
    (b.withArena settings a').Holds settings rows a' where
  machine := rfl
  stage := by
    have hsome : a'.training.isSome = a.training.isSome := by
      rw [← Option.isSome_map (f := TrainingBuffers.targets), ht, Option.isSome_map]
    rw [hsome]
    exact h.stage
  batch := h.batch
  room := h.room
  targets := by
    intro t' ht'
    rw [ht', Option.map_some] at ht
    rcases Option.map_eq_some_iff.mp ht.symm with ⟨t, hat, htargets⟩
    rw [← htargets]
    exact h.targets t hat
  precision := hprecision.trans h.precision

theorem prepared {t : TrainingBuffers α} (h : b.Holds settings rows a)
    (ht : t.targets.size = b.size * rows) :
    (b.withTraining settings a t).Holds settings rows { a with training := some t } where
  machine := rfl
  stage := rfl
  batch := h.batch
  room := h.room
  targets := by
    intro t' ht'
    cases ht'
    exact ht
  precision := h.precision

theorem fits_iff (h : b.Holds settings rows a) (xs : Array α) :
    b.fits xs = true ↔ xs.size = b.size * rows :=
  fits_iff_of_whole h.batch xs

theorem batch_eq (h : b.Holds settings rows a) : b.batch = rows := batch_of_whole h.batch

/-- Targets are refused, or they fit. -/
theorem checkTargets_cases (h : b.Holds settings rows a) (targets : Operand α) :
    (∃ f, (checkTargets targets).outcome b = (.error f, b)) ∨
      ∃ ts, targets = .ok ts ∧ ts.size = b.size * rows ∧
        (checkTargets targets).outcome b = (.ok ts, b) := by
  cases targets with
  | error f => exact Or.inl ⟨f, rfl⟩
  | ok ts =>
      have hfits := h.fits_iff ts
      cases hcheck : b.fits ts with
      | true =>
          refine Or.inr ⟨ts, rfl, hfits.mp hcheck, ?_⟩
          simp [checkTargets, hcheck]
      | false =>
          apply Or.inl
          simp only [checkTargets, outcome_of_ok_bind, outcome_get_bind, hcheck]
          exact ⟨_, rfl⟩

theorem le_maxRows (h : b.Holds settings rows a) : rows ≤ Machine.maxRows :=
  le_maxRows_of_hasRoom h.room

theorem machineRows_eq (h : b.Holds settings rows a) : Machine.rows b.givenBatch = .ok rows := by
  rw [h.batch]
  exact machineRows_whole h.le_maxRows

theorem givenRows_eq (h : b.Holds settings rows a) : b.givenBatch.rows = .ok rows := by
  rw [h.batch]
  exact givenRows_whole h.le_maxRows

/-- Targets that fit are put in place of those that training was prepared with. -/
theorem setTargets_of_fits {t : TrainingBuffers α} {ts : Array α} (h : b.Holds settings rows a)
    (ht : a.training = some t) (hts : ts.size = b.size * rows) :
    (setTargets (.ok ts)).outcome b =
      (.ok (), b.withTraining settings a { t with targets := ts }) := by
  have hstage : b.stage = .trainable := by
    rw [h.stage, ht]
    rfl
  have hfits : b.fits ts = true := (h.fits_iff ts).mpr hts
  rw [setTargets, outcome_bind_of_ok (outcome_requireTraining (trainable_of_dense h.machine)),
    outcome_bind_of_ok (outcome_require_of_le (hstage.symm ▸ Nat.le_refl _) _)]
  simp only [checkTargets, outcome_bind, outcome_of, outcome_get, hfits, Bool.not_true,
    Bool.false_eq_true, if_false, outcome_pure, h.machine, Holding.training?, ht, outcome_set,
    withTraining, hstage]
  rfl

/-- Setting targets fails and changes nothing, or leaves the targets that were given. -/
theorem setTargets_cases (h : b.Holds settings rows a) (targets : Operand α) :
    (∃ f, (setTargets targets).outcome b = (.error f, b)) ∨
      ∃ ts t, targets = .ok ts ∧ t.targets = ts ∧ ts.size = b.size * rows ∧
        (setTargets targets).outcome b = (.ok (), b.withTraining settings a t) := by
  by_cases hstage : b.stage < .trainable
  · rw [setTargets, outcome_bind_of_ok (outcome_requireTraining (trainable_of_dense h.machine)),
      outcome_bind, outcome_require, if_pos hstage]
    exact Or.inl ⟨_, rfl⟩
  · rcases h.checkTargets_cases targets with ⟨f, hcheck⟩ | ⟨ts, rfl, hts, -⟩
    · rw [setTargets, outcome_bind_of_ok (outcome_requireTraining (trainable_of_dense h.machine)),
        outcome_bind, outcome_require, if_neg hstage]
      simp only [outcome_bind_of_error hcheck]
      exact Or.inl ⟨f, rfl⟩
    · rcases Option.isSome_iff_exists.mp (h.isSome_training hstage) with ⟨t, ht⟩
      exact Or.inr ⟨ts, { t with targets := ts }, rfl, rfl, hts, h.setTargets_of_fits ht hts⟩

end Holds

/-!
## Preparing a network
-/

theorem equal_int_iff {k m : Int} : (Value.int k).equal (.int m) = true ↔ k = m := by
  simp [Value.equal, Value.same, Value.sameNumber, Value.number?]

theorem checkNetwork_of_sizes {size : Nat} {weights biases : Array α} {batch : Number}
    {tags : List Value} {codes : List Activation} (hbatch : batch.less (.whole 1) = false)
    (hweights : weights.size = size * size) (hbiases : biases.size = size)
    (hlength : tags.length = size) (hcodes : tags.mapM Activation.ofValue = .ok codes)
    (memory : Memory) :
    checkNetwork memory (.int size) (.ok weights) (.ok biases) (.ok batch) (.ok (some tags)) =
      .ok ⟨size, batch, weights, biases, codes⟩ := by
  have htotal : (Value.int weights.size).equal (.int (size * size)) = true := by
    rw [equal_int_iff, hweights, Int.natCast_mul]
  have hslots : (Value.int biases.size).equal (.int size) = true := by
    rw [equal_int_iff, hbiases]
  have hcount : (Value.int tags.length).equal (.int size) = true := by
    rw [equal_int_iff, hlength]
  have htags : @Activation.ofTags memory (some tags) (.int size) = .ok codes := by
    rw [Activation.ofTags, hcount]
    exact hcodes
  rw [checkNetwork]
  simp only [bind, Except.bind, weightTotal, Value.toInt, Except.map, hbatch, htotal, hslots, htags]
  rfl

/-- The operands of a network that passes the checks are taken over as they are. -/
theorem checkNetwork_eq_ok {memory : Memory} {size : Nat} {weights biases : Array α}
    {batch : Number} {tags : List Value} {n : Network α}
    (h : checkNetwork memory (.int size) (.ok weights) (.ok biases) (.ok batch)
      (.ok (some tags)) = .ok n) :
    ∃ codes, tags.mapM Activation.ofValue = .ok codes ∧
      n = ⟨size, batch, weights, biases, codes⟩ := by
  rcases bind_eq_ok h with ⟨_, hbatch, h⟩
  cases hbatch
  rcases guard_eq_ok h with ⟨-, h⟩
  rcases bind_eq_ok h with ⟨_, hweights, h⟩
  cases hweights
  rcases bind_eq_ok h with ⟨_, hbiases, h⟩
  cases hbiases
  rcases bind_eq_ok h with ⟨total, -, h⟩
  rcases guard_eq_ok h with ⟨-, h⟩
  rcases guard_eq_ok h with ⟨-, h⟩
  rcases bind_eq_ok h with ⟨_, htags, h⟩
  cases htags
  rcases bind_eq_ok h with ⟨codes, hcodes, h⟩
  rcases bind_eq_ok h with ⟨_, hextent, h⟩
  cases hextent
  cases h
  unfold Activation.ofTags at hcodes
  rcases guard_eq_ok hcodes with ⟨-, hcodes⟩
  rcases bind_eq_ok hcodes with ⟨_, -, hcodes⟩
  exact ⟨codes, hcodes, rfl⟩

theorem rows_eq_ok {batch : Number} {rows : Nat} (h : Machine.rows batch = .ok rows)
    (hless : batch.less (.whole 1) = false) :
    batch = .whole rows := by
  rcases bind_eq_ok h with ⟨extent, hextent, h⟩
  rcases guard_eq_ok h with ⟨-, h⟩
  cases h
  cases batch with
  | whole n =>
      cases hextent
      have hpos : 1 ≤ extent := by simpa using hless
      rw [Int.toNat_of_nonneg (by omega)]
  | flag b => cases hextent
  | real x => cases hextent

variable [Scalar α]

theorem load_dense_eq_ok {memory : Memory} {settings : TrainingSettings} {held : Holding α}
    {n : Network α} {m : Machine α} (hless : n.batch.less (.whole 1) = false)
    (h : Machine.load memory n (.dense settings held) = .ok m) :
    ∃ rows : Nat, n.batch = .whole rows ∧ Machine.hasRoom memory n.size rows = true ∧
      m = .dense settings (.network
        (Arena.allocate settings.basePrecision n.size rows n.weights n.biases n.codes)) := by
  rcases bind_eq_ok h with ⟨rows, hrows, h⟩
  rcases guard_eq_ok h with ⟨hroom, h⟩
  cases h
  exact ⟨rows, rows_eq_ok hrows hless, by simpa using hroom, rfl⟩

/-- The backend that a network has been loaded into. -/
def loaded (settings : TrainingSettings) (size rows : Nat) (weights biases : Array α)
    (codes : List Activation) (b : Backend α) : Backend α :=
  { b with
    size
    givenBatch := .whole rows
    machine := .dense settings (.network
      (Arena.allocate settings.basePrecision size rows weights biases codes))
    stage := .compiled }

/-- A network is refused and the backend stays set up, or it is loaded. -/
theorem prepare_cases {settings : TrainingSettings} {b : Backend α} {size : Nat}
    {weights biases : Array α} {batch : Number} {tags : List Value}
    (h : b.Equipped settings) (hless : batch.less (.whole 1) = false) :
    (∃ f b', (prepare (.int size) (.ok weights) (.ok biases) (.ok batch)
        (.ok (some tags))).outcome b = (.error f, b') ∧ b'.Equipped settings) ∨
      ∃ (rows : Nat) (codes : List Activation), batch = .whole rows ∧
        Machine.hasRoom b.host.memory size rows = true ∧
        tags.mapM Activation.ofValue = .ok codes ∧
        (prepare (.int size) (.ok weights) (.ok biases) (.ok batch) (.ok (some tags))).outcome b =
          (.ok (), b.loaded settings size rows weights biases codes) := by
  rcases h.dense with ⟨held, hheld⟩
  rw [prepare, outcome_bind_of_ok (outcome_require_of_le h.ready _), outcome_get_bind]
  cases hcheck : checkNetwork b.host.memory (.int size) (.ok weights) (.ok biases) (.ok batch)
      (.ok (some tags)) with
  | error f =>
      rw [outcome_of_error_bind]
      exact Or.inl ⟨f, b, rfl, h⟩
  | ok n =>
      rcases checkNetwork_eq_ok hcheck with ⟨codes, hcodes, hn⟩
      rw [outcome_of_ok_bind, outcome_modify_bind, outcome_get_bind]
      cases hload : (b.machine.unload).load b.host.memory n with
      | error f =>
          rw [outcome_of_error_bind]
          exact Or.inl ⟨f, _, rfl, ⟨⟨.nothing, by rw [hheld]; rfl⟩, h.ready⟩⟩
      | ok m =>
          apply Or.inr
          have hm := hload
          rw [hheld, Machine.unload, hn] at hm
          rcases load_dense_eq_ok hless hm with ⟨rows, hrows, hroom, hmachine⟩
          refine ⟨rows, codes, hrows, hroom, hcodes, ?_⟩
          rw [outcome_of_ok_bind, outcome_modify, hmachine, hn, hrows]
          rfl

/-- A network that passes the checks is loaded into the machine. -/
theorem outcome_prepare_of_load {size : Value} {weights biases : Operand α}
    {batch : Except Fault Number} {activations : Except Fault (Option (List Value))}
    {n : Network α} {m : Machine α} {b : Backend α}
    (hcheck : checkNetwork b.host.memory size weights biases batch activations = .ok n)
    (hready : ¬b.stage < .ready) (hload : b.machine.unload.load b.host.memory n = .ok m) :
    (prepare size weights biases batch activations).outcome b =
      (.ok (), { b with
        size := n.size, givenBatch := n.batch, machine := m, stage := .compiled }) := by
  rw [prepare, outcome_bind, outcome_require, if_neg hready]
  simp only [hcheck, outcome_of_ok_bind, outcome_modify_bind, outcome_get_bind, hload,
    outcome_modify]

theorem load_dense_of_hasRoom {memory : Memory} {n : Network α} {rows : Nat}
    (hbatch : n.batch = .whole rows) (hroom : Machine.hasRoom memory n.size rows = true)
    (settings : TrainingSettings) :
    Machine.load memory n (.dense settings .nothing) = .ok (.dense settings (.network
      (Arena.allocate settings.basePrecision n.size rows n.weights n.biases n.codes))) := by
  simp only [Machine.load, hbatch, machineRows_whole (le_maxRows_of_hasRoom hroom), bind,
    Except.bind, hroom]
  rfl

/-- A network whose parts have the right lengths is loaded if there is room for it. -/
theorem outcome_prepare_of_hasRoom {settings : TrainingSettings} {b : Backend α} {size rows : Nat}
    {weights biases : Array α} {tags : List Value} {codes : List Activation}
    (h : b.Equipped settings) (hrows : (Number.whole rows).less (.whole 1) = false)
    (hroom : Machine.hasRoom b.host.memory size rows = true)
    (hweights : weights.size = size * size) (hbiases : biases.size = size)
    (hlength : tags.length = size) (hcodes : tags.mapM Activation.ofValue = .ok codes) :
    (prepare (.int size) (.ok weights) (.ok biases) (.ok (.whole rows))
        (.ok (some tags))).outcome b =
      (.ok (), b.loaded settings size rows weights biases codes) := by
  rcases h.dense with ⟨held, hheld⟩
  have hcheck : checkNetwork b.host.memory (.int size) (.ok weights) (.ok biases)
      (.ok (.whole rows)) (.ok (some tags)) = .ok ⟨size, .whole rows, weights, biases, codes⟩ :=
    checkNetwork_of_sizes hrows hweights hbiases hlength hcodes _
  have hload : b.machine.unload.load b.host.memory ⟨size, .whole rows, weights, biases, codes⟩ =
      .ok (.dense settings (.network
        (Arena.allocate settings.basePrecision size rows weights biases codes))) := by
    rw [hheld]
    exact load_dense_of_hasRoom rfl hroom settings
  exact outcome_prepare_of_load hcheck (Nat.not_lt.mpr h.ready) hload

theorem holds_loaded {settings : TrainingSettings} {size rows : Nat} {weights biases : Array α}
    {codes : List Activation} {b : Backend α}
    (h : Machine.hasRoom b.host.memory size rows = true) :
    (b.loaded settings size rows weights biases codes).Holds settings rows
      (Arena.allocate settings.basePrecision size rows weights biases codes) where
  machine := rfl
  stage := rfl
  batch := rfl
  room := h
  targets := by
    intro t ht
    cases ht
  precision := rfl

/-!
## Running a network
-/

theorem outcome_forward_of_refused {e : Fault} {b : Backend α} (hlate : ¬b.stage < .compiled) :
    (forward (.error e)).outcome b = (.error e, b) := by
  rw [forward, outcome_bind, outcome_require, if_neg hlate]
  simp only [outcome_of_error_bind]

theorem outcome_forward_of_misfit {xs : Array α} {b : Backend α} (hlate : ¬b.stage < .compiled)
    (hfits : b.fits xs = false) :
    (forward (.ok xs)).outcome b = (.error (.inputSize b.cells xs.size), b) := by
  rw [forward, outcome_bind, outcome_require, if_neg hlate]
  simp only [outcome_of_ok_bind, outcome_get_bind, hfits]
  rfl

theorem outcome_forward_dense {xs : Array α} {b : Backend α} {settings : TrainingSettings}
    {a : Arena α} (hlate : ¬b.stage < .compiled) (hfits : b.fits xs = true)
    (hmachine : b.machine = .dense settings (.network a)) :
    (forward (.ok xs)).outcome b =
      (.ok (a.forward b.size b.batch xs).output,
        b.withArena settings (a.forward b.size b.batch xs)) := by
  rw [forward, outcome_bind, outcome_require, if_neg hlate]
  simp only [outcome_of_ok_bind, outcome_get_bind, hfits, hmachine]
  rfl

/-- An arena that differs from another one in what a training tick changes. -/
structure Trains (a a' : Arena α) : Prop where
  codes : a'.codes = a.codes
  input : a'.input = a.input
  targets : a'.training.map TrainingBuffers.targets = a.training.map TrainingBuffers.targets
  precision : a'.precision = a.precision
  weights : ∀ x ∈ a'.weights, x ∈ a.weights ∨ Scalar.Rounded a.precision x
  biases : ∀ x ∈ a'.biases, x ∈ a.biases ∨ Scalar.Rounded a.precision x
  size_weights : a'.weights.size ≤ a.weights.size
  size_biases : a'.biases.size ≤ a.biases.size

theorem Trains.refl (a : Arena α) : Trains a a where
  codes := rfl
  input := rfl
  targets := rfl
  precision := rfl
  weights := fun _ => Or.inl
  biases := fun _ => Or.inl
  size_weights := Nat.le_refl _
  size_biases := Nat.le_refl _

theorem trains_keepDeltas {a : Arena α} {t : TrainingBuffers α} (ht : a.training = some t)
    (deltas : Array α) : Trains a (a.keepDeltas t deltas) where
  codes := rfl
  input := rfl
  targets := by
    rw [ht]
    rfl
  precision := rfl
  weights := fun _ => Or.inl
  biases := fun _ => Or.inl
  size_weights := Nat.le_refl _
  size_biases := Nat.le_refl _

/-- What is moved against its gradient is rounded. -/
theorem rounded_of_mem_zipWith {precision : Precision} {rate x : α} {parameters gradients : Array α}
    (hx : x ∈ parameters.zipWith (Arena.descend precision rate) gradients) :
    Scalar.Rounded precision x := by
  rcases Array.mem_iff_getElem?.mp hx with ⟨i, hi⟩
  rw [Array.getElem?_zipWith] at hi
  split at hi
  · cases hi
    exact ⟨_, rfl⟩
  · cases hi

theorem trains_update {a : Arena α} {t : TrainingBuffers α} (ht : a.training = some t)
    (size batch : Nat) (rank : Option Nat) (deltas : Array α) :
    Trains a ((a.keepDeltas t deltas).update size batch rank t deltas) := by
  have hkept := trains_keepDeltas ht deltas
  constructor
  · exact hkept.codes
  · exact hkept.input
  · exact hkept.targets
  · exact hkept.precision
  · intro x hx
    exact Or.inr (rounded_of_mem_zipWith hx)
  · intro x hx
    exact Or.inr (rounded_of_mem_zipWith hx)
  · rw [Arena.update, Array.size_zipWith]
    exact Nat.min_le_left _ _
  · rw [Arena.update, Array.size_zipWith]
    exact Nat.min_le_left _ _

namespace Holds

variable {settings : TrainingSettings} {rows : Nat} {a : Arena α} {b : Backend α}

theorem forward_of_fits {xs : Array α} (h : b.Holds settings rows a)
    (hxs : xs.size = b.size * rows) :
    (forward (.ok xs)).outcome b =
      (.ok (a.forward b.size rows xs).output,
        b.withArena settings (a.forward b.size rows xs)) := by
  have hrun := outcome_forward_dense (Nat.not_lt.mpr h.compiled) ((h.fits_iff xs).mpr hxs) h.machine
  rw [h.batch_eq] at hrun
  exact hrun

/-- An input is refused, or it is run forward and the rest of the arena stays as it was. -/
theorem forward_cases (h : b.Holds settings rows a) (inputs : Operand α) :
    (∃ f, (forward inputs).outcome b = (.error f, b)) ∨
      ∃ xs, inputs = .ok xs ∧ xs.size = b.size * rows ∧
        (forward inputs).outcome b =
          (.ok (a.forward b.size rows xs).output,
            b.withArena settings (a.forward b.size rows xs)) := by
  cases inputs with
  | error f =>
      exact Or.inl ⟨f, outcome_forward_of_refused (Nat.not_lt.mpr h.compiled)⟩
  | ok xs =>
      by_cases hxs : xs.size = b.size * rows
      · exact Or.inr ⟨xs, rfl, hxs, h.forward_of_fits hxs⟩
      · have hfits : b.fits xs = false := by
          rw [← Bool.not_eq_true, h.fits_iff]
          exact hxs
        exact Or.inl ⟨_, outcome_forward_of_misfit (Nat.not_lt.mpr h.compiled) hfits⟩

theorem prepareTraining_of_fits {ts : Array α} (h : b.Holds settings rows a)
    (hts : ts.size = b.size * rows) (x : Float) :
    (prepareTraining (.ok ts) (.ok x)).outcome b =
      (.ok (), b.withTraining settings a
        (.allocate settings.adapterPrecision b.size rows ts x)) := by
  have hfits : b.fits ts = true := (h.fits_iff ts).mpr hts
  rw [prepareTraining, outcome_bind_of_ok (outcome_requireTraining (trainable_of_dense h.machine)),
    outcome_bind_of_ok (outcome_require_of_le h.compiled _)]
  simp only [checkTargets, allocateTraining, outcome_bind, outcome_of, outcome_get, hfits,
    Bool.not_true, Bool.false_eq_true, if_false, outcome_pure, h.machine, h.machineRows_eq,
    h.givenRows_eq]
  rfl

/-- Preparing training fails and changes nothing, or leaves the targets that were given. -/
theorem prepareTraining_cases (h : b.Holds settings rows a) (targets : Operand α)
    (rate : Except Fault Float) :
    (∃ f, (prepareTraining targets rate).outcome b = (.error f, b)) ∨
      ∃ ts t, targets = .ok ts ∧ t.targets = ts ∧ ts.size = b.size * rows ∧
        (∃ x, rate = .ok x) ∧
        (prepareTraining targets rate).outcome b = (.ok (), b.withTraining settings a t) := by
  rw [prepareTraining, outcome_bind_of_ok (outcome_requireTraining (trainable_of_dense h.machine)),
    outcome_bind_of_ok (outcome_require_of_le h.compiled _)]
  rcases h.checkTargets_cases targets with ⟨f, hcheck⟩ | ⟨ts, rfl, hts, hcheck⟩
  · rw [outcome_bind_of_error hcheck]
    exact Or.inl ⟨f, rfl⟩
  · cases rate with
    | error f =>
        rw [outcome_bind_of_ok hcheck, outcome_of_error_bind]
        exact Or.inl ⟨f, rfl⟩
    | ok x =>
        apply Or.inr
        refine ⟨ts, .allocate settings.adapterPrecision b.size rows ts x, rfl, rfl, hts,
          ⟨x, rfl⟩, ?_⟩
        rw [← h.prepareTraining_of_fits hts x, prepareTraining,
          outcome_bind_of_ok (outcome_requireTraining (trainable_of_dense h.machine)),
          outcome_bind_of_ok (outcome_require_of_le h.compiled _)]

/-- What a training step leaves as it was, and that a failed one leaves the parameters too. -/
theorem descend_cases (h : b.Holds settings rows a) (given : Option (Array α)) :
    ∃ r a', (descend given).outcome b = (r, b.withArena settings a') ∧ Trains a a' ∧
      (r = .ok () ∨ (∃ f, r = .error f) ∧ a'.weights = a.weights ∧ a'.biases = a.biases) := by
  simp only [descend, outcome_get_bind, h.machine]
  cases ht : a.training with
  | none =>
      refine ⟨.error .absent, a, ?_, .refl a, Or.inr ⟨⟨_, rfl⟩, rfl, rfl⟩⟩
      rw [h.withArena_self]
      rfl
  | some t =>
      have hkeeps := trains_keepDeltas ht (a.deltasOf b.size b.batch t given)
      simp only [outcome_set_bind]
      cases hcheck : (a.keepDeltas t (a.deltasOf b.size b.batch t given)).checkGradients b.size
          b.batch settings.rank (a.deltasOf b.size b.batch t given) with
      | error f =>
          refine ⟨.error f, a.keepDeltas t (a.deltasOf b.size b.batch t given), ?_, hkeeps,
            Or.inr ⟨⟨f, rfl⟩, rfl, rfl⟩⟩
          rw [outcome_of_error_bind]
          rfl
      | ok _ =>
          rw [outcome_of_ok_bind]
          cases hrank : Arena.cutRank b.size settings.rank with
          | error f =>
              refine ⟨.error f, a.keepDeltas t (a.deltasOf b.size b.batch t given), ?_, hkeeps,
                Or.inr ⟨⟨f, rfl⟩, rfl, rfl⟩⟩
              rw [outcome_of_error_bind]
              rfl
          | ok rank =>
              refine ⟨.ok (), (a.keepDeltas t (a.deltasOf b.size b.batch t given)).update b.size
                b.batch rank t (a.deltasOf b.size b.batch t given), ?_,
                trains_update ht _ _ _ _, Or.inl rfl⟩
              rw [outcome_of_ok_bind, outcome_set]
              rfl

/-- A training tick that fails leaves the parameters as they were. -/
theorem trainTick_cases (h : b.Holds settings rows a) (deltas : Option (Operand α)) :
    ∃ r a', (trainTick deltas).outcome b = (r, b.withArena settings a') ∧ Trains a a' ∧
      (r = .ok () ∨ (∃ f, r = .error f) ∧ a'.weights = a.weights ∧ a'.biases = a.biases) := by
  rw [trainTick, outcome_bind_of_ok (outcome_requireTraining (trainable_of_dense h.machine)),
    outcome_bind, outcome_require]
  by_cases hstage : b.stage < .trainable
  · rw [if_pos hstage]
    refine ⟨.error (.stageTooEarly b.name b.stage "train_tick" .trainable), a, ?_,
      .refl a, Or.inr ⟨⟨_, rfl⟩, rfl, rfl⟩⟩
    rw [h.withArena_self]
  · rw [if_neg hstage]
    cases deltas with
    | none => exact h.descend_cases none
    | some ds =>
        rcases h.checkTargets_cases ds with ⟨f, hcheck⟩ | ⟨xs, rfl, -, hcheck⟩
        · refine ⟨.error f, a, ?_, .refl a, Or.inr ⟨⟨_, rfl⟩, rfl, rfl⟩⟩
          simp only [checkDeltas, outcome_bind, hcheck, h.withArena_self]
        · simp only [checkDeltas, outcome_bind, hcheck, outcome_pure]
          exact h.descend_cases (some xs)

theorem readParameters_eq (h : b.Holds settings rows a) :
    (readParameters : Attempt (Backend α) (Array α × Array α)).outcome b =
      (.ok (a.weights, a.biases), b) := by
  rw [readParameters, outcome_bind_of_ok (outcome_require_of_le h.compiled _)]
  simp only [outcome_get_bind, h.machine]
  rfl

end Holds

end Backend
end Plexus
