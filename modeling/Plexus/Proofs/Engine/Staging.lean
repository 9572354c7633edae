import Plexus.Proofs.Engine.Account
import Plexus.Proofs.Engine.Projection
import Plexus.Proofs.Training.Flush

/-!
# Staged inputs

Each injection overlays the leading slots of every row of the staged input, and what compiles the
graph anew clears all of it.  So each slot holds the value of the latest injection since then that
reaches it, on whatever stores and backend.
-/

namespace Plexus

open Attempt

theorem Number.whole?_of_toInt_eq_ok {n : Number} {k : Int} (h : n.toInt = .ok k) :
    n.whole? = some k := by
  rw [Number.toInt_eq] at h
  cases hwhole : n.whole? with
  | none =>
      rw [hwhole] at h
      cases h
  | some m =>
      rw [hwhole] at h
      cases h
      rfl

namespace Engine

variable {α β : Type}

/-!
## Overlays
-/

section Overlay

variable [Scalar α]

/-- What the latest of some injections that reach a slot puts there; zero if none does. -/
def latest (injected : List (Array α)) (i : Nat) : α :=
  (injected.reverse.findSome? fun values => values[i]?).getD Scalar.zero

/-- The staged input after some injections: in every row, the latest value of each slot. -/
def overlay (size batch : Nat) (injected : List (Array α)) : Array α :=
  ((List.range (batch * size)).map fun cell => latest injected (cell % size)).toArray

theorem latest_concat (injected : List (Array α)) (values : Array α) (i : Nat) :
    latest (injected ++ [values]) i = values[i]?.getD (latest injected i) := by
  rw [latest, List.reverse_append, List.reverse_singleton, List.singleton_append,
    List.findSome?_cons]
  cases values[i]? with
  | none => rfl
  | some v => rfl

theorem size_overlay (size batch : Nat) (injected : List (Array α)) :
    (overlay size batch injected).size = batch * size := by
  simp [overlay]

theorem getElem?_overlay {size batch cell : Nat} (injected : List (Array α))
    (h : cell < batch * size) :
    (overlay size batch injected)[cell]? = some (latest injected (cell % size)) := by
  rw [overlay, List.getElem?_toArray, List.getElem?_map, List.getElem?_range h, Option.map_some]

theorem overlay_nil (size batch : Nat) :
    overlay size batch ([] : List (Array α)) = Scalar.zeros (batch * size) := by
  apply Array.ext'
  show (List.range (batch * size)).map (Function.const Nat Scalar.zero) = _
  rw [List.map_const, List.length_range, Scalar.zeros, Array.toList_replicate]

/-- An injection lays its values over those that were injected before. -/
theorem stage_overlay (size batch : Nat) (injected : List (Array α)) (values : Array α) :
    stage size batch (overlay size batch injected) values =
      overlay size batch (injected ++ [values]) := by
  refine congrArg List.toArray (List.map_congr_left fun cell hcell => ?_)
  rw [latest_concat, Scalar.cell, getElem?_overlay injected (List.mem_range.mp hcell),
    Option.getD_some]
  cases values[cell % size]? with
  | none => rfl
  | some v => rfl

end Overlay

/-!
## What has been staged
-/

/-- What the staged input is laid out by, the staged input, and the memory it is held in. -/
def slots (e : Engine α) : Option (Compiled α) × TrainingSettings × Array α × Memory :=
  (e.compiled, e.training, e.staged, e.memory)

/-- The length of a staged input for the compiled graph. -/
def stagedLength (e : Engine α) : Except Fault Nat := do
  let rows ← e.training.microBatchSize.toInt
  Value.heldLength e.memory Scalar.bytes (e.size * rows)

/-- A staged input has a slot for each neuron in each row of a batch. -/
theorem stagedLength_eq_ok {e : Engine α} {cells : Nat} (h : e.stagedLength = .ok cells) :
    cells = e.batch * e.size ∧ e.size * e.batch * Scalar.bytes < Value.byteLimit := by
  rcases bind_eq_ok h with ⟨rows, hrows, hcells⟩
  have hwhole := Number.whole?_of_toInt_eq_ok hrows
  have hbatch := batch_of_whole? hwhole
  have hpos : 1 ≤ e.batch := TrainingSettings.count_microBatchSize_pos hwhole
  have hrows : rows = e.batch := by omega
  rw [hrows, Value.heldLength] at hcells
  rcases bind_eq_ok hcells with ⟨n, hn, hcells⟩
  rcases guard_eq_ok hcells with ⟨-, hcells⟩
  cases hcells
  rw [Value.arrayLength] at hn
  split at hn
  · cases hn
  · next hfits =>
    cases hn
    push Not at hfits
    have hcells : ((e.size : Int) * e.batch).toNat = e.size * e.batch := Int.toNat_natCast _
    rw [hcells] at hfits ⊢
    exact ⟨Nat.mul_comm _ _, hfits.2⟩

variable [Scalar α]

/-- A compiled engine that nothing is staged for, as far as there is room to stage anything. -/
def Reset (e : Engine α) : Prop :=
  e.compiled.isSome = true → ∀ cells, e.stagedLength = .ok cells → e.staged = Scalar.zeros cells

/-- A compiled engine and what has been injected since its staged input was cleared. -/
structure Staged (injected : List (Array α)) (e : Engine α) : Prop where
  ready : e.hasReadyBackend = true
  compiled : e.compiled.isSome = true
  room : ∃ cells, e.stagedLength = .ok cells
  staged : e.staged = overlay e.size e.batch injected

/-- What has been injected into an engine stays there as long as its slots do. -/
theorem Staged.of_slots {injected : List (Array α)} {e e' : Engine α} (h : e.Staged injected)
    (hready : e'.hasReadyBackend = true) (hslots : e'.slots = e.slots) : e'.Staged injected := by
  simp only [slots, Prod.mk.injEq] at hslots
  rcases hslots with ⟨hcompiled, htraining, hstaged, hmemory⟩
  have hsize : e'.size = e.size := by rw [size, hcompiled, size]
  refine ⟨hready, hcompiled ▸ h.compiled, ?_, ?_⟩
  · rcases h.room with ⟨cells, hcells⟩
    refine ⟨cells, ?_⟩
    rw [stagedLength, htraining, hsize, hmemory]
    exact hcells
  · rw [hstaged, hsize, batch, htraining]
    exact h.staged

theorem Reset.of_slots {e e' : Engine α} (h : e.Reset) (hslots : e'.slots = e.slots) :
    e'.Reset := by
  simp only [slots, Prod.mk.injEq] at hslots
  rcases hslots with ⟨hcompiled, htraining, hstaged, hmemory⟩
  have hlength : e'.stagedLength = e.stagedLength := by
    rw [stagedLength, stagedLength, htraining, size, hcompiled, size, hmemory]
  rw [Reset, hcompiled, hlength, hstaged]
  exact h

theorem reset_of_not_compiled {e : Engine α} (h : e.compiled = none) : e.Reset := by
  intro hsome
  rw [h] at hsome
  cases hsome

/-- An engine that is reset, and has room for its staged input, has nothing staged. -/
theorem Reset.staged {e : Engine α} {cells : Nat} (h : e.Reset)
    (hready : e.hasReadyBackend = true) (hcompiled : e.compiled.isSome = true)
    (hcells : e.stagedLength = .ok cells) : e.Staged [] := by
  refine ⟨hready, hcompiled, ⟨cells, hcells⟩, ?_⟩
  rw [h hcompiled cells hcells, overlay_nil, (stagedLength_eq_ok hcells).1]

/-- An engine whose slots are those of another one, or that has been reset. -/
def Restaged (e e' : Engine α) : Prop := Fixes slots e e' ∨ e'.Reset

instance : IsPreorder (Engine α) Restaged where
  refl _ := Or.inl rfl
  trans e₁ e₂ e₃ h h' := by
    rcases h' with h' | h'
    · rcases h with h | h
      · exact Or.inl (IsTrans.trans e₁ e₂ e₃ h h')
      · exact Or.inr (h.of_slots h')
    · exact Or.inr h'

/-!
## Compiling
-/

omit [Scalar α] in
theorem slots_onBackend {step : Attempt (Backend α) β} (h : Respects Backend.Stands step) :
    Respects (Fixes slots) (onBackend step) := by
  refine respects_onBackend fun e b hb => ?_
  rw [Fixes, slots, slots, memory_eq hb, memory_eq rfl, (h b).host]

theorem slots_renewTargets (cells : Nat) :
    Respects (Fixes slots) (renewTargets (α := α) cells) := by
  refine respects_get_bind fun e => ?_
  split
  · rw [after, outcome_set_bind]
    exact slots_onBackend (Backend.stands_prepareTraining _ _)
      { e with targets := some (blankTargets cells) }
  · exact refl e

/-- Installing a graph ends for want of room for a staged input, or clears the staged input. -/
theorem install_cases (c : Compiled α) (e : Engine α) :
    (∃ f, stagedLength { e with compiled := some c } = .error f ∧
        (install c).outcome e = (.error f, { e with compiled := some c })) ∨
      ∃ cells, stagedLength { e with compiled := some c } = .ok cells ∧
        (install c).outcome e = (renewTargets cells).outcome
          { e with compiled := some c, staged := Scalar.zeros cells, trained := false } := by
  have hlength : stagedLength { e with compiled := some c } =
      (e.training.microBatchSize.toInt >>= fun rows =>
        Value.heldLength e.memory Scalar.bytes (c.size * rows)) := rfl
  rw [install, outcome_modify_bind, outcome_get_bind, hlength]
  dsimp only
  cases e.training.microBatchSize.toInt with
  | error f => exact Or.inl ⟨f, rfl, outcome_of_error_bind _ _ _⟩
  | ok rows =>
      rw [outcome_of_ok_bind]
      show (∃ f, Value.heldLength e.memory Scalar.bytes (c.size * rows) = .error f ∧ _) ∨
        ∃ cells, Value.heldLength e.memory Scalar.bytes (c.size * rows) = .ok cells ∧ _
      cases Value.heldLength e.memory Scalar.bytes (c.size * rows) with
      | error f => exact Or.inl ⟨f, rfl, outcome_of_error_bind _ _ _⟩
      | ok cells =>
          refine Or.inr ⟨cells, rfl, ?_⟩
          rw [outcome_of_ok_bind, outcome_modify_bind]

/-- With a graph that has been installed, nothing is staged, as far as there is room. -/
theorem reset_install (c : Compiled α) (e : Engine α) : ((install c).after e).Reset := by
  rcases install_cases c e with ⟨f, hlength, hrun⟩ | ⟨cells, hlength, hrun⟩
  · rw [after_of_outcome hrun]
    intro _ cells hcells
    rw [hlength] at hcells
    cases hcells
  · rw [after, hrun]
    refine Reset.of_slots (fun _ cells' hcells => ?_) (slots_renewTargets cells _)
    cases hlength.symm.trans hcells
    rfl

theorem room_of_install {c : Compiled α} {e e' : Engine α}
    (h : (install c).outcome e = (.ok (), e')) : ∃ cells, e'.stagedLength = .ok cells := by
  rcases install_cases c e with ⟨f, -, hrun⟩ | ⟨cells, hlength, hrun⟩
  · rw [hrun] at h
    cases h
  · rw [hrun] at h
    have hslots := slots_renewTargets cells
      { e with compiled := some c, staged := Scalar.zeros cells, trained := false }
    rw [after_of_outcome h, Fixes, slots, slots, Prod.mk.injEq, Prod.mk.injEq,
      Prod.mk.injEq] at hslots
    refine ⟨cells, ?_⟩
    rw [stagedLength, size, hslots.1, hslots.2.1, hslots.2.2.2]
    exact hlength

/-- A compilation leaves the slots as they are, gives up the graph, or clears the staged input. -/
theorem restaged_compile : Respects Restaged (compile (α := α)) := by
  refine respects_get_bind fun e => ?_
  refine respects_guard ?_ e
  refine (respects_of _).bind fun c e => ?_
  rcases load_or_abandon c e with ⟨b, b', -, -, -, hrun⟩ | ⟨f, backend, -, hrun⟩
  · rw [after, outcome_bind_of_ok hrun]
    exact Or.inr (bind_induction (I := Reset) (reset_install c _) fun _ _ h => h)
  · rw [after, outcome_bind_of_error hrun]
    exact Or.inr (reset_of_not_compiled rfl)

/-- A compilation that succeeds clears the staged input. -/
theorem staged_of_compile {c : Compiled α} {e e' : Engine α}
    (h : compile.outcome e = (.ok c, e')) : e'.Staged [] := by
  have hready := ready_of_compile h
  have hready' := compiling_ready.compile e hready
  have hcompiled : e'.compiled.isSome = true := by
    rw [(compile_eq_ok h).2]
    rfl
  rw [after_of_outcome h] at hready'
  rw [outcome_compile_of_ready hready] at h
  rcases outcome_bind_eq_ok h with ⟨c, t, hgraph, h⟩
  rcases outcome_bind_eq_ok h with ⟨_, u, hload, h⟩
  rcases outcome_bind_eq_ok h with ⟨_, v, hinstall, h⟩
  cases h
  rcases room_of_install hinstall with ⟨cells, hcells⟩
  have hreset := reset_install c u
  rw [after_of_outcome hinstall] at hreset
  exact hreset.staged hready' hcompiled hcells

/-!
## Readiness
-/

theorem moving_ready : Moving (Kept fun e : Engine α => e.hasReadyBackend = true) where
  toSyncing := ⟨editing_ready, fun _ h => h, ready_onBackend fun b =>
    (Backend.ticked_readParameters b).stands⟩
  toCompiling := compiling_ready
  toEquipping := by
    refine ⟨fun e b hnone _ hready => ?_, fun e hnot hready => ?_, fun e settings =>
      (quiet_retrained e settings).ready⟩
    · rcases hasReadyBackend_iff.mp hready with ⟨b, hb, -⟩
      rw [hnone] at hb
      cases hb
    · rw [hready] at hnot
      cases hnot
  toRunning := ⟨fun e staged => (running_quiet.staged e staged).ready,
    fun e audience => (running_quiet.audience e audience).ready,
    fun inputs e => (running_quiet.forward inputs e).ready,
    fun targets e => (running_quiet.supervise targets e).ready,
    fun targets e => (running_quiet.setTargets targets e).ready⟩

/-!
## What compiles the graph anew
-/

theorem staged_of_refreshAndCompile {e e' : Engine α} {p : Projection}
    (hready : e'.hasReadyBackend = true) (h : refreshAndCompile.outcome e = (.ok p, e')) :
    e'.Staged [] := by
  rcases outcome_bind_eq_ok h with ⟨_, t, -, h⟩
  rw [outcome_get_bind] at h
  split at h
  · rcases outcome_bind_eq_ok h with ⟨c, u, hcompile, h⟩
    have hsame := respects_projection (R := Eq) u
    rw [after_of_outcome h] at hsame
    rw [← hsame]
    exact staged_of_compile hcompile
  · next hnot =>
    have hsame := respects_projection (R := Eq) t
    rw [after_of_outcome h] at hsame
    rw [hsame] at hnot
    exact absurd hready hnot

theorem staged_of_init {e e' : Engine α} {p : Projection} (h : init.outcome e = (.ok p, e')) :
    e'.Staged [] := by
  rcases outcome_bind_eq_ok h with ⟨_, t, -, h⟩
  rcases outcome_bind_eq_ok h with ⟨_, u, -, h⟩
  rcases outcome_bind_eq_ok h with ⟨c, v, hcompile, h⟩
  have hsame := respects_projection (R := Eq) v
  rw [after_of_outcome h] at hsame
  rw [← hsame]
  exact staged_of_compile hcompile

theorem staged_of_setTraining {settings : TrainingSettings} {e e' : Engine α}
    (hcompiled : e.compiled.isSome = true) (h : (setTraining settings).outcome e = (.ok (), e')) :
    e'.Staged [] := by
  rcases outcome_bind_eq_ok h with ⟨_, t, hsync, h⟩
  have hsame := syncing_compiled.syncIfTrained e
  rw [after_of_outcome hsync] at hsame
  have hsome : (t.retrained settings).compiled.isSome = true := by
    show t.compiled.isSome = true
    rw [show t.compiled = e.compiled from hsame]
    exact hcompiled
  rw [retrain, outcome_modify_bind, outcome_get_bind, hsome, if_pos rfl] at h
  rcases outcome_bind_eq_ok h with ⟨c, u, hcompile, h⟩
  cases h
  exact staged_of_compile hcompile

theorem syncing_slots : Syncing (Fixes (slots (α := α))) where
  graph _ _ _ _ _ _ _ := rfl
  saved _ := rfl
  read := slots_onBackend fun b => (Backend.ticked_readParameters b).stands

end Engine

open Engine

variable {α : Type} [Scalar α]

/-- Whatever is done with an engine, a backend that has its device keeps it. -/
theorem Deed.ready_perform (d : Deed α) :
    Respects (Kept fun e : Engine α => e.hasReadyBackend = true) d.perform := by
  refine d.respects moving_ready (fun e h => ?_) (fun rate e => (quiet_takeRate rate e).ready)
    (fun deltas => ready_onBackend fun b => (Backend.ticked_trainTick deltas b).stands)
    fun _ h => h
  rcases hasReadyBackend_iff.mp h with ⟨b, hb, hready⟩
  exact hasReadyBackend_iff.mpr
    ⟨b.release, congrArg (Option.map Backend.release) hb, Backend.ready_release hready⟩

/-- An edit that succeeds on an engine that is ready clears the staged input. -/
theorem Edit.staged (edit : Edit) {e : Engine α} (hready : e.hasReadyBackend = true)
    (hok : (edit.action : Action α).perform.succeeds e = true) :
    ((edit.action : Action α).perform.after e).Staged [] := by
  have hready' := Deed.ready_perform (.act edit.action) e hready
  rw [Deed.perform, edit.perform_action, after_void] at hready'
  rw [edit.perform_action, succeeds_void] at hok
  rw [edit.perform_action, after_void]
  rcases outcome_of_succeeds hok with ⟨p, hrun⟩
  rcases edit.recompiles e _ p hrun with ⟨t, hlast⟩
  exact staged_of_refreshAndCompile hready' hlast

namespace Action

/-- Whether an action compiles the graph of an engine anew if it succeeds. -/
def recompiles (e : Engine α) : Action α → Bool
  | .init | .compile => true
  | .addNeuron _ | .addSynapse _ | .deleteNeuron _ | .deleteSynapse _ | .updateSynapseWeight ..
  | .importGraph _ => e.hasReadyBackend
  | .setTraining _ => e.compiled.isSome
  | _ => false

/--
Whether an action has compiled the graph of an engine anew.  An import can do so and fail: it
compiles the entities that were stored before one was refused.
-/
def Recompiled (a : Action α) (e : Engine α) : Prop :=
  a.recompiles e = true ∧ (a.perform.succeeds e = true ∨
    ∃ doc graph, a = .importGraph doc ∧ Document.parse doc = .ok graph ∧
      refreshAndCompile.succeeds ((replaceStored graph.1 graph.2).after e) = true)

theorem staged_of_succeeds {a : Action α} {e : Engine α} (h : a.recompiles e = true)
    (hok : a.perform.succeeds e = true) : (a.perform.after e).Staged [] := by
  cases a with
  | init =>
      rw [perform, succeeds_void] at hok
      rcases outcome_of_succeeds hok with ⟨p, hrun⟩
      rw [perform, after_void]
      exact staged_of_init hrun
  | compile =>
      rw [perform, succeeds_void] at hok
      rcases outcome_of_succeeds hok with ⟨c, hrun⟩
      rw [perform, after_void]
      exact staged_of_compile hrun
  | addNeuron n => exact Edit.staged (.addNeuron n) h hok
  | addSynapse s => exact Edit.staged (.addSynapse s) h hok
  | deleteNeuron id => exact Edit.staged (.deleteNeuron id) h hok
  | deleteSynapse id => exact Edit.staged (.deleteSynapse id) h hok
  | updateSynapseWeight id weight =>
      exact Edit.staged (.updateSynapseWeight id weight) h hok
  | importGraph doc => exact Edit.staged (.importGraph doc) h hok
  | setTraining settings =>
      rcases outcome_of_succeeds hok with ⟨_, hrun⟩
      exact staged_of_setTraining h hrun
  | close | exportGraph | syncWeights | injectInput | tick | prepareTraining | trainTick | attend =>
      cases h

/-- What has compiled the graph anew has cleared the staged input. -/
theorem Recompiled.staged {a : Action α} {e : Engine α} (h : a.Recompiled e) :
    (a.perform.after e).Staged [] := by
  rcases h with ⟨hrecompiles, hok | ⟨doc, graph, rfl, hparse, hok⟩⟩
  · exact staged_of_succeeds hrecompiles hok
  · have hready := Deed.ready_perform (.act (.importGraph doc)) e hrecompiles
    rcases outcome_of_succeeds hok with ⟨p, hrun⟩
    rw [Deed.perform, perform, after_void, after_importGraph hparse rfl] at hready
    rw [perform, after_void, after_importGraph hparse rfl]
    exact staged_of_refreshAndCompile hready hrun

end Action

/-!
## What runs the graph
-/

namespace Deed

/-- Whether a deed leaves the graph that is compiled, even if it succeeds. -/
def keepsCompiled : Deed α → Bool
  | .openLoop _ => true
  | .act a => a.runs || a.trains

/-- The values that a deed injects, if they can be read. -/
def injection? : Deed α → Option (Array α)
  | .act (.injectInput (.ok values)) => some values
  | _ => none

/-- The values that a deed injects into an engine, if it is not refused. -/
def injected (e : Engine α) (d : Deed α) : List (Array α) :=
  if d.perform.succeeds e then d.injection?.toList else []

theorem injected_of_other {d : Deed α} (h : ∀ values, d ≠ .act (.injectInput values))
    (e : Engine α) : d.injected e = [] := by
  have hnone : d.injection? = none := by
    unfold injection?
    split
    · next values => exact absurd rfl (h (.ok values))
    · rfl
  rw [injected, hnone]
  split <;> rfl

end Deed

namespace Engine

omit [Scalar α] in
theorem slots_takeRate (rate : Option (Except Fault Float)) :
    Respects (Fixes slots) (takeRate (α := α) rate) := by
  cases rate with
  | none => exact respects_pure ()
  | some r => exact (respects_of r).bind fun _ => respects_modify fun _ => rfl

omit [Scalar α] in
theorem slots_keepTargets (targets : Operand α) :
    Respects (Fixes slots) (keepTargets targets) :=
  (respects_of _).bind fun _ => respects_modify fun _ => rfl

theorem slots_supervise (targets : Operand α) :
    Respects (Fixes slots) (supervise targets) :=
  respects_get_bind fun e => ((slots_onBackend (Backend.stands_prepareTraining _ _)).bind fun _ =>
    slots_keepTargets targets) e

theorem slots_forward (inputs : Operand α) :
    Respects (Fixes slots) (onBackend (Backend.forward inputs)) :=
  slots_onBackend fun b => (Backend.ticked_forward inputs b).stands

theorem slots_trainTick (inputs targets deltas : Option (Operand α)) :
    Respects (Fixes slots) (trainTick inputs targets deltas) := by
  have hset : ∀ ts : Operand α, Respects (Fixes slots) (onBackend (Backend.setTargets ts)) :=
    fun ts => slots_onBackend fun b => (Backend.ticked_setTargets ts b).stands
  have htrain : Respects (Fixes slots) (onBackend (Backend.trainTick deltas)) :=
    slots_onBackend fun b => (Backend.ticked_trainTick deltas b).stands
  have hretarget : Respects (Fixes slots) (retarget targets) :=
    respects_retarget slots_supervise
      (fun ts => (hset ts).bind fun _ => slots_keepTargets ts) targets
  refine (respects_measure slots_forward hretarget (fun _ _ => rfl) inputs).bind
    fun loss => htrain.bind fun _ => ?_
  exact Respects.bind (R := Fixes slots) (respects_modify fun _ => rfl) fun _ => respects_pure loss

end Engine

/-- What runs the graph touches no slot, except for an injection. -/
theorem Deed.slots_perform {d : Deed α} (h : d.keepsCompiled = true)
    (hother : ∀ values, d ≠ .act (.injectInput values)) :
    Respects (Fixes slots) d.perform := by
  cases d with
  | openLoop rate => exact respects_openLoop (slots_takeRate rate)
  | act a =>
      cases a with
      | injectInput values => exact absurd rfl (hother values)
      | tick inputs => exact (respects_tick slots_forward inputs).void
      | prepareTraining targets rate =>
          exact (respects_requireTrainable _).bind fun _ =>
            (slots_takeRate rate).bind fun _ => slots_supervise targets
      | trainTick inputs targets deltas => exact (slots_trainTick inputs targets deltas).void
      | exportGraph => exact syncing_slots.exportGraph.void
      | syncWeights => exact syncing_slots.syncWeights
      | attend audience => exact fun _ => rfl
      | init | compile | close | addNeuron | addSynapse | deleteNeuron | deleteSynapse
      | updateSynapseWeight | importGraph | setTraining => cases h

namespace Engine

/-- A staged input after an injection, whether it is refused or not. -/
theorem Staged.inject {injected : List (Array α)} {e : Engine α} (h : e.Staged injected)
    (values : Operand α) :
    let d : Deed α := .act (.injectInput values)
    (d.perform.after e).Staged (injected ++ d.injected e) ∧
      (d.perform.after e).compiled = e.compiled ∧
      (d.perform.after e).training = e.training := by
  intro d
  have hready := d.ready_perform e h.ready
  rcases injectInput_cases values e with ⟨f, hrun⟩ | ⟨xs, rfl, -, hrun⟩
  · have hrefused : d.perform.outcome e = (.error f, e) := hrun
    rw [Deed.injected, not_succeeds_of_error hrefused, if_neg Bool.false_ne_true, List.append_nil,
      after_of_outcome hrefused]
    exact ⟨h, rfl, rfl⟩
  · have htaken : d.perform.outcome e =
        (.ok (), { e with staged := stage e.size e.batch e.staged xs }) := hrun
    rw [after_of_outcome htaken] at hready ⊢
    rw [Deed.injected, succeeds_of_ok (congrArg Prod.fst htaken), if_pos rfl]
    refine ⟨⟨hready, h.compiled, h.room, ?_⟩, rfl, rfl⟩
    show stage e.size e.batch e.staged xs = _
    rw [h.staged, stage_overlay]
    rfl

/-- A staged input after anything that runs the graph. -/
theorem Staged.step {injected : List (Array α)} {e : Engine α} {d : Deed α} (h : e.Staged injected)
    (hd : d.keepsCompiled = true) :
    (d.perform.after e).Staged (injected ++ d.injected e) ∧
      (d.perform.after e).compiled = e.compiled ∧
      (d.perform.after e).training = e.training := by
  by_cases hinject : ∃ values, d = .act (.injectInput values)
  · rcases hinject with ⟨values, rfl⟩
    exact h.inject values
  · have hother : ∀ values, d ≠ .act (.injectInput values) := fun values hd => hinject ⟨values, hd⟩
    have hslots := Deed.slots_perform hd hother e
    rw [Deed.injected_of_other hother, List.append_nil]
    exact ⟨h.of_slots (d.ready_perform e h.ready) hslots, congrArg Prod.fst hslots,
      congrArg (fun s => s.2.1) hslots⟩

/-- The values that deeds inject into an engine, as far as they are not refused. -/
def injectedFrom (e : Engine α) : List (Deed α) → List (Array α)
  | [] => []
  | d :: rest => d.injected e ++ (d.perform.after e).injectedFrom rest

theorem Staged.follow {injected : List (Array α)} {e : Engine α} {ds : List (Deed α)}
    (h : e.Staged injected) (hds : ∀ d ∈ ds, d.keepsCompiled = true) :
    (e.follow ds).Staged (injected ++ e.injectedFrom ds) ∧ (e.follow ds).compiled = e.compiled ∧
      (e.follow ds).training = e.training := by
  induction ds generalizing e injected with
  | nil =>
      rw [injectedFrom, List.append_nil]
      exact ⟨h, rfl, rfl⟩
  | cons d rest ih =>
      rcases h.step (hds d List.mem_cons_self) with ⟨hstep, hcompiled, htraining⟩
      rcases ih hstep fun d' hd' => hds d' (List.mem_cons_of_mem d hd') with
        ⟨hrest, hcompiled', htraining'⟩
      rw [injectedFrom, ← List.append_assoc]
      exact ⟨hrest, hcompiled'.trans hcompiled, htraining'.trans htraining⟩

/-!
## What fails
-/

theorem Restaged.of_slots {step : Attempt (Engine α) β} (h : Respects (Fixes slots) step) :
    Respects Restaged step :=
  fun e => Or.inl (h e)

theorem restaged_refreshAndCompile : Respects Restaged (refreshAndCompile (α := α)) := by
  refine (Restaged.of_slots syncing_slots.refresh).bind fun _ => respects_get_bind fun e => ?_
  split
  · exact (restaged_compile.bind fun _ => respects_projection) e
  · exact respects_projection e

omit [Scalar α] in
theorem slots_equip : Respects (Fixes slots) (equip (α := α)) := by
  have hacquire : Respects (Fixes slots) (acquireBackend (α := α)) := by
    refine respects_get_bind fun e => ?_
    split
    · next hnone =>
      cases hselect : Backend.select (α := α) e.host e.settings e.training
          (Capabilities.probe e.host) with
      | error f => exact refl e
      | ok b =>
          have hmemory : e.memory = e.host.memory := by
            rw [memory, Option.isNone_iff_eq_none.mp hnone]
          rw [after, outcome_of_ok_bind, outcome_set, Fixes, slots, slots, hmemory, memory_eq rfl,
            (Backend.new_of_select hselect).1]
    · exact refl e
  refine hacquire.bind fun _ => ?_
  refine Respects.bind (R := Fixes slots) (respects_modify fun e => ?_) fun _ => ?_
  · rw [Fixes, slots, slots, memory_updateBackend (Backend.host_configure _)]
    rfl
  refine respects_get_bind fun e => ?_
  split
  · exact slots_onBackend Backend.stands_init e
  · exact refl e

end Engine

/-- What ends in compiling the graph anew leaves the slots as they are, or clears them. -/
theorem Edit.restaged (edit : Edit) : Respects Restaged (edit.perform (α := α)) := by
  have hend := restaged_refreshAndCompile (α := α)
  have hsync := Restaged.of_slots (syncing_slots (α := α)).syncIfTrained
  have hedit : Editing (Restaged (α := α)) := ⟨fun _ _ _ _ _ _ _ => Or.inl rfl⟩
  cases edit with
  | addNeuron n => exact hsync.bind fun _ => (hedit.onNeurons _).bind fun _ => hend
  | addSynapse s => exact hsync.bind fun _ => (hedit.onSynapses _).bind fun _ => hend
  | deleteNeuron id =>
      refine hsync.bind fun _ => respects_get_bind fun e => ?_
      refine (Respects.forM fun s _ => hedit.onSynapses _).bind (fun _ => ?_) e
      exact (hedit.onNeurons _).bind fun _ => hend
  | deleteSynapse id => exact hsync.bind fun _ => (hedit.onSynapses _).bind fun _ => hend
  | updateSynapseWeight id weight =>
      refine hsync.bind fun _ => (respects_findSynapse id).bind fun s => ?_
      exact (respects_of _).bind fun s => (hedit.onSynapses _).bind fun _ => hend
  | importGraph doc =>
      refine (respects_of _).bind fun graph => ?_
      refine ((hedit.replaceStored _ _).onFault ?_).bind fun _ => hend
      exact hend.bind fun _ => respects_pure _

namespace Engine

/-- An engine with the graph and the staged input of another one, or one that has been reset. -/
def StaysOrResets (e e' : Engine α) : Prop :=
  e'.compiled = e.compiled ∧ e'.staged = e.staged ∨ e'.Reset

theorem Restaged.staysOrResets {e e' : Engine α} (h : e.Restaged e') : e.StaysOrResets e' :=
  h.imp_left fun hslots => ⟨congrArg Prod.fst hslots, congrArg (fun s => s.2.2.1) hslots⟩

theorem staysOrResets_setTraining (settings : TrainingSettings) :
    Respects StaysOrResets (setTraining (α := α) settings) := by
  intro e
  have hsync := syncing_slots.syncIfTrained e
  cases hrun : syncIfTrained.outcome e with
  | mk r t =>
      rw [after_of_outcome hrun] at hsync
      have hsame : t.compiled = e.compiled ∧ t.staged = e.staged :=
        ⟨congrArg Prod.fst hsync, congrArg (fun s => s.2.2.1) hsync⟩
      cases r with
      | error f =>
          rw [setTraining, after_of_outcome (outcome_bind_of_error hrun _)]
          exact Or.inl hsame
      | ok _ =>
          rw [setTraining, after, outcome_bind_of_ok hrun, retrain, outcome_modify_bind,
            outcome_get_bind]
          split
          · have hcompile := restaged_compile.bind_pure (fun _ => ()) (t.retrained settings)
            rcases hcompile.staysOrResets with ⟨hcompiled, hstaged⟩ | hreset
            · exact Or.inl ⟨hcompiled.trans hsame.1, hstaged.trans hsame.2⟩
            · exact Or.inr hreset
          · exact Or.inl hsame

end Engine

/-- Whatever compiles the graph leaves it and what is staged, or it clears what is staged. -/
theorem Action.staysOrResets {a : Action α} (h : a.reloads = true ∨ a.mutates = true) :
    Respects StaysOrResets a.perform := by
  have hedit : ∀ edit : Edit, Respects StaysOrResets (edit.action : Action α).perform := by
    intro edit e
    rw [edit.perform_action]
    exact (edit.restaged.void e).staysOrResets
  cases a with
  | init =>
      have hread := Restaged.of_slots (syncing_slots (α := α)).readGraph
      have hinit : Respects Restaged (Engine.init (α := α)) := by
        refine (Restaged.of_slots slots_equip).bind fun _ => hread.bind fun _ => ?_
        exact restaged_compile.bind fun _ => respects_projection
      exact fun e => (hinit.void e).staysOrResets
  | compile => exact fun e => (restaged_compile.void e).staysOrResets
  | addNeuron n => exact hedit (.addNeuron n)
  | addSynapse s => exact hedit (.addSynapse s)
  | deleteNeuron id => exact hedit (.deleteNeuron id)
  | deleteSynapse id => exact hedit (.deleteSynapse id)
  | updateSynapseWeight id weight => exact hedit (.updateSynapseWeight id weight)
  | importGraph doc => exact hedit (.importGraph doc)
  | setTraining settings => exact staysOrResets_setTraining settings
  | close | exportGraph | syncWeights | injectInput | tick | prepareTraining | trainTick | attend =>
      rcases h with h | h <;> cases h

/-!
## The staged input of a tick
-/

namespace Engine

/-- Where a batch is a number of rows and a row has slots, no injection is refused. -/
theorem Staged.injects {injected : List (Array α)} {e : Engine α} {n : Int}
    (h : e.Staged injected) (hbatch : e.training.microBatchSize = .whole n) (hsize : 0 < e.size)
    (values : Array α) : (injectInput (.ok values)).succeeds e = true := by
  rcases h.room with ⟨cells, hcells⟩
  have hroom := (stagedLength_eq_ok hcells).2
  have hpos : 1 ≤ e.batch :=
    TrainingSettings.count_microBatchSize_pos (n := n) (by rw [hbatch]; rfl)
  have hn : n = e.batch := by
    have hcount : e.batch = n.toNat := by rw [batch, hbatch, Number.count_whole]
    omega
  have hrows : e.training.microBatchSize.rows = .ok e.batch := by
    have hbytes : e.batch * 4 ≤ e.size * e.batch * Scalar.bytes :=
      Nat.mul_le_mul_right 4 (Nat.le_mul_of_pos_left e.batch hsize)
    rw [hbatch, Number.rows, Number.extent_whole]
    show Value.arrayLength 4 n = .ok e.batch
    rw [Value.arrayLength, hn, Int.toNat_natCast, if_neg (by omega)]
  have hlength : ¬e.staged.size ≠ e.batch * e.size := by
    rw [h.staged, size_overlay]
    exact not_not_intro rfl
  rcases Option.isSome_iff_exists.mp h.compiled with ⟨c, hc⟩
  rcases hasReadyBackend_iff.mp h.ready with ⟨b, hb, -⟩
  have hrequire : (requireCompiled "inject_input").outcome e = (.ok (), e) := by
    rw [requireCompiled, outcome_get_bind, hc, hb]
    rfl
  refine succeeds_of_ok (b := ()) ?_
  rw [injectInput, outcome_bind_of_ok hrequire, outcome_of_ok_bind, outcome_get_bind, hrows,
    outcome_of_ok_bind, if_neg hlength]
  rfl

theorem Staged.injected_eq {injected : List (Array α)} {e : Engine α} {n : Int}
    (h : e.Staged injected) (hbatch : e.training.microBatchSize = .whole n) (hsize : 0 < e.size)
    (d : Deed α) : d.injected e = d.injection?.toList := by
  by_cases hinject : ∃ values, d = .act (.injectInput (.ok values))
  · rcases hinject with ⟨values, rfl⟩
    exact if_pos (h.injects hbatch hsize values)
  · have hnone : d.injection? = none := by
      unfold Deed.injection?
      split
      · next values => exact absurd ⟨values, rfl⟩ hinject
      · rfl
    rw [Deed.injected, hnone]
    split <;> rfl

theorem Staged.injectedFrom_eq {injected : List (Array α)} {e : Engine α} {n : Int}
    {ds : List (Deed α)} (h : e.Staged injected) (hds : ∀ d ∈ ds, d.keepsCompiled = true)
    (hbatch : e.training.microBatchSize = .whole n) (hsize : 0 < e.size) :
    e.injectedFrom ds = ds.filterMap Deed.injection? := by
  induction ds generalizing e injected with
  | nil => rfl
  | cons d rest ih =>
      rcases h.step (hds d List.mem_cons_self) with ⟨hstep, hcompiled, htraining⟩
      have hsame : (d.perform.after e).size = e.size := by rw [size, hcompiled, size]
      have hrest := ih hstep (fun d' hd' => hds d' (List.mem_cons_of_mem d hd'))
        (htraining ▸ hbatch) (hsame ▸ hsize)
      rw [injectedFrom, hrest, h.injected_eq hbatch hsize, List.filterMap_cons]
      cases d.injection? with
      | none => rfl
      | some values => rfl

/-- A tick that is given nothing runs on the staged input. -/
theorem tick_none (e : Engine α) :
    (tick none).outcome e = (tick (some (.ok e.staged))).outcome e := by
  refine outcome_bind_congr fun _ t hok => ?_
  have hsame := respects_requireCompiled (R := Eq) "tick" e
  rw [after_of_outcome hok] at hsame
  cases hsame
  rw [outcome_get_bind, outcome_get_bind, Option.getD_none, Option.getD_some]

/--
An engine, on whatever stores and backend, has compiled its graph anew, and after that the graph
has only been run.  Then in every row a slot has staged the value of the latest injection that
reaches it, zero if none does, and a tick that is given nothing is a tick on these values.  No
values that can be read are refused, however many they are.  Whatever compiles the graph next,
even if it fails, either leaves it with what is staged or clears that.
-/
theorem staged_eq_latest {e e' : Engine α} {a : Action α} {ds : List (Deed α)}
    (hrecompiled : a.Recompiled e) (hds : ∀ d ∈ ds, d.keepsCompiled = true)
    (hrun : (a.perform.after e).follow ds = e') :
    let injected := (a.perform.after e).injectedFrom ds
    e'.compiled.isSome = true ∧ e'.compiled = (a.perform.after e).compiled ∧
      e'.staged.size = e'.batch * e'.size ∧
      (∀ b < e'.batch, ∀ i < e'.size,
        e'.staged[b * e'.size + i]? = some (latest injected i)) ∧
      (tick none).outcome e' =
        (tick (some (.ok (overlay e'.size e'.batch injected)))).outcome e' ∧
      ((∃ n, e'.training.microBatchSize = .whole n) → 0 < e'.size →
        injected = ds.filterMap Deed.injection?) ∧
      ∀ a' : Action α, a'.reloads = true ∨ a'.mutates = true →
        e'.StaysOrResets (a'.perform.after e') := by
  intro injected
  rcases hrecompiled.staged.follow hds with ⟨hstaged, hcompiled, htraining⟩
  rw [List.nil_append, hrun] at hstaged
  rw [hrun] at hcompiled htraining
  refine ⟨hstaged.compiled, hcompiled, ?_, fun b hb i hi => ?_, ?_, ?_, ?_⟩
  · rw [hstaged.staged, size_overlay]
  · rw [hstaged.staged, getElem?_overlay injected (cell_lt hb hi), Nat.mul_add_mod_of_lt hi]
  · rw [tick_none, ← hstaged.staged]
  · rintro ⟨n, hbatch⟩ hsize
    refine hrecompiled.staged.injectedFrom_eq hds (htraining ▸ hbatch) ?_
    rw [size, hcompiled] at hsize
    exact hsize
  · exact fun a' h => a'.staysOrResets h e'

/-- Values for more slots than there are, a tick, and a value for the first slot only. -/
def overlaying : List (Deed Float32) :=
  [.act (.injectInput (.ok #[1.0, 2.0, 3.0])), .act (.tick none), .act (.injectInput (.ok #[5.0]))]

/-- An engine that runs on what was injected since its batches were made larger. -/
def overlaid : Engine Float32 :=
  ((Action.setTraining Trainer.inPairs).perform.after (init.after linked)).follow overlaying

theorem staged_eq_latest_overlaid :
    (Action.setTraining Trainer.inPairs).Recompiled (init.after linked) ∧
      (∀ d ∈ overlaying, d.keepsCompiled = true) ∧ overlaid.batch = 2 ∧ overlaid.size = 2 ∧
      ∀ b < 2, overlaid.staged[b * 2]? = some (5.0 : Float32) ∧
        overlaid.staged[b * 2 + 1]? = some (2.0 : Float32) := by
  have hrecompiled : (Action.setTraining Trainer.inPairs).Recompiled (init.after linked) :=
    ⟨by decide +kernel, Or.inl (by decide +kernel)⟩
  have hds : ∀ d ∈ overlaying, d.keepsCompiled = true := by decide +kernel
  have hrun : ((Action.setTraining Trainer.inPairs).perform.after (init.after linked)).follow
    overlaying = overlaid := rfl
  have hbatch : overlaid.batch = 2 := by decide +kernel
  have hsize : overlaid.size = 2 := by decide +kernel
  have hwhole : overlaid.training.microBatchSize = .whole 2 := rfl
  rcases staged_eq_latest hrecompiled hds hrun with ⟨-, -, -, hslots, -, hinjected, -⟩
  rw [hinjected ⟨2, hwhole⟩ (by rw [hsize]; decide), hbatch, hsize] at hslots
  refine ⟨hrecompiled, hds, hbatch, hsize, fun b hb => ⟨?_, ?_⟩⟩
  · exact hslots b hb 0 (by decide)
  · exact hslots b hb 1 (by decide)

end Engine

end Plexus
