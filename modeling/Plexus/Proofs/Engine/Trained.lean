import Plexus.Proofs.Store.Faults
import Plexus.Proofs.Training.Rate

/-!
# When the mark of a trained engine is backed

An engine that is marked as trained writes its parameters back before its graph is exported or
changed.  It can do so if it has a compiled graph and its backend holds a network.  Whatever is
done with an engine keeps the mark backed, up to one case: closing an engine gives up the graph
and the network, and leaves the mark.
-/

namespace Plexus

open Attempt

namespace Backend

variable {α : Type} [Scalar α]

/-- A backend that holds a network answers with its parameters, or misses a buffer of them. -/
theorem readParameters_avoids_notReady {b : Backend α} (h : .compiled ≤ b.stage) :
    Avoids .notReady (readParameters.outcome b).1 := by
  rw [readParameters, outcome_bind_of_ok (outcome_require_of_le h _), outcome_get_bind]
  split
  · exact avoids_ok _
  · exact avoids_ok _
  · exact avoids_error (by simp [Fault.family])

end Backend

namespace Engine

variable {α β : Type}

/-- If an engine is marked as trained, then it has a compiled graph and a backend that holds one. -/
def Backed (e : Engine α) : Prop :=
  e.trained = true → e.compiled.isSome = true ∧ ∃ b, e.backend = some b ∧ .compiled ≤ b.stage

theorem backed_of_untrained {e : Engine α} (h : e.trained = false) : e.Backed := by
  intro htrained
  rw [h] at htrained
  cases htrained

/-- A step on the backend keeps the mark backed if the backend keeps its network. -/
theorem backed_onBackend {step : Attempt (Backend α) β}
    (h : ∀ b : Backend α, .compiled ≤ b.stage → .compiled ≤ (step.after b).stage) :
    Respects (Kept Backed) (onBackend step) := by
  refine respects_onBackend fun e b hb he htrained => ?_
  rcases he htrained with ⟨hc, b₀, hb₀, hstage⟩
  rw [hb] at hb₀
  cases hb₀
  exact ⟨hc, _, rfl, h b hstage⟩

theorem backed_of_ticked {step : Attempt (Backend α) β} (h : Respects Backend.Ticked step) :
    Respects (Kept Backed) (onBackend step) :=
  backed_onBackend fun b hstage => (h b).stage.symm ▸ hstage

variable [Scalar α]

theorem backed_onBackend_prepareTraining (targets : Operand α) (rate : Except Fault Float) :
    Respects (Kept Backed) (onBackend (Backend.prepareTraining targets rate)) := by
  refine backed_onBackend fun b hstage => ?_
  rcases Backend.prepareTraining_cases targets rate b with
    ⟨f, b', hrun, hleft⟩ | ⟨settings, held, t, x, -, -, -, hrun⟩
  · rw [after_of_outcome hrun, hleft.calm.stage]
    exact hstage
  · rw [after_of_outcome hrun]
    exact (by decide : Stage.compiled ≤ Stage.trainable)

/-- A graph is loaded, or the mark is given up with the graph. -/
theorem backed_load (c : Compiled α) : Respects (Kept Backed) (onFault (load c) abandon) := by
  intro e he
  rcases load_or_abandon c e with ⟨b, b', -, -, hstage, hrun⟩ | ⟨f, backend, -, hrun⟩
  · rw [after_of_outcome hrun]
    intro htrained
    refine ⟨(he htrained).1, b', rfl, ?_⟩
    rw [hstage]
    exact Nat.le_refl _
  · rw [after_of_outcome hrun]
    exact backed_of_untrained rfl

omit [Scalar α] in
theorem backed_keepTargets (targets : Operand α) :
    Respects (Kept Backed) (keepTargets targets) :=
  (respects_of _).bind fun _ => respects_modify fun _ h => h

theorem moving_backed : Moving (Kept (Backed (α := α))) where
  graph _ _ _ _ _ _ _ h := h
  saved _ _ := backed_of_untrained rfl
  read := backed_of_ticked Backend.ticked_readParameters
  load := backed_load
  compiled _ _ h htrained := ⟨rfl, (h htrained).2⟩
  installed _ _ _ := backed_of_untrained rfl
  renewTargets cells := by
    refine respects_get_bind fun e => ?_
    split
    · rw [after, outcome_set_bind]
      exact fun he => backed_onBackend_prepareTraining _ _ _ he
    · exact refl e
  acquire e b hnone _ he htrained := by
    rcases he htrained with ⟨-, b', hb', -⟩
    rw [hnone] at hb'
    cases hb'
  boot e hready he := by
    -- A backend without a device holds no network, so the engine was not marked.
    cases hb : e.backend with
    | none =>
        rw [after_of_outcome (outcome_onBackend_of_none hb _)]
        exact he
    | some b =>
        rw [after_of_outcome (outcome_onBackend hb _)]
        intro htrained
        rcases he htrained with ⟨-, b', hb', hstage⟩
        have hready' := hasReadyBackend_iff.mpr ⟨b', hb', Nat.le_trans (by decide) hstage⟩
        rw [hready] at hready'
        cases hready'
  retrained e settings he htrained := by
    rcases he htrained with ⟨hc, b, hb, hstage⟩
    refine ⟨hc, b.configure settings, ?_, ?_⟩
    · rw [retrained, updateBackend, hb, Option.map_some]
    · rw [b.stage_configure]
      exact hstage
  staged _ _ h := h
  audience _ _ h := h
  forward inputs := backed_of_ticked (Backend.ticked_forward inputs)
  supervise targets :=
    respects_get_bind fun e => ((backed_onBackend_prepareTraining targets _).bind fun _ =>
      backed_keepTargets targets) e
  setTargets targets :=
    (backed_of_ticked (Backend.ticked_setTargets targets)).bind fun _ => backed_keepTargets targets

/-!
## Training and closing
-/

theorem running_compiled :
    Running (Kept fun e : Engine α => e.compiled.isSome = true) where
  staged _ _ h := h
  audience _ _ h := h
  forward _ := respects_onBackend fun _ _ _ h => h
  supervise _ :=
    respects_get_bind fun e => ((respects_onBackend fun _ _ _ h => h).bind fun _ =>
      (respects_of _).bind fun _ => respects_modify fun _ h => h) e
  setTargets _ :=
    (respects_onBackend fun _ _ _ h => h).bind fun _ =>
      (respects_of _).bind fun _ => respects_modify fun _ h => h

/-- The loss can be measured only in an engine with a compiled graph, which stays. -/
theorem compiled_of_measure {e e' : Engine α} {inputs targets : Option (Operand α)} {loss : α}
    (h : (measure inputs targets).outcome e = (.ok loss, e')) : e'.compiled.isSome = true := by
  rcases Option.eq_none_or_eq_some e.compiled with hc | ⟨c, hc⟩
  · rcases checks_measure inputs targets e hc with ⟨f, hfails⟩
    rw [hfails] at h
    cases h
  · have hkept := running_compiled.measure inputs targets e (Option.isSome_of_eq_some hc)
    rw [after_of_outcome h] at hkept
    exact hkept

/-- A training tick marks the engine only once the backend has trained. -/
theorem backed_trainTick (inputs targets deltas : Option (Operand α)) :
    Respects (Kept Backed) (trainTick inputs targets deltas) := by
  intro e he
  have hmeasured := moving_backed.measure inputs targets e he
  rw [trainTick, after, outcome_bind]
  cases hmeasure : (measure inputs targets).outcome e with
  | mk r t =>
      rw [after_of_outcome hmeasure] at hmeasured
      cases r with
      | error f => exact hmeasured
      | ok loss =>
          have htick := backed_of_ticked (Backend.ticked_trainTick deltas) t hmeasured
          dsimp only
          rw [outcome_bind]
          cases htrain : (onBackend (Backend.trainTick deltas)).outcome t with
          | mk r u =>
              rw [after_of_outcome htrain] at htick
              cases r with
              | error f => exact htick
              | ok _ =>
                  rcases outcome_onBackend_eq_ok htrain with ⟨b, b', -, hstep, rfl⟩
                  have hstage := Backend.stage_of_trainTick hstep
                  have hticked := Backend.ticked_trainTick deltas b
                  rw [after_of_outcome hstep] at hticked
                  have hc := compiled_of_measure hmeasure
                  refine fun _ => ⟨hc, b', rfl, ?_⟩
                  rw [hticked.stage]
                  exact Nat.le_trans (by decide) hstage

omit [Scalar α] in
/-- Closing an engine that is marked as trained takes away what backs the mark. -/
theorem backed_close_iff (e : Engine α) : (close.after e).Backed ↔ e.trained = false := by
  constructor
  · intro h
    rw [← Bool.not_eq_true]
    intro htrained
    have hnone : (none : Option (Compiled α)).isSome = true := (h htrained).1
    cases hnone
  · exact fun h => backed_of_untrained h

omit [Scalar α] in
theorem backed_takeRate (rate : Option (Except Fault Float)) :
    Respects (Kept Backed) (takeRate (α := α) rate) := by
  cases rate with
  | none => exact respects_pure ()
  | some r => exact (respects_of r).bind fun _ => respects_modify fun _ h => h

end Engine

open Engine

variable {α : Type} [Scalar α]

theorem Action.backed_perform {a : Action α} (h : a ≠ .close) :
    Respects (Kept Backed) a.perform := by
  cases a with
  | close => exact absurd rfl h
  | trainTick inputs targets deltas => exact (backed_trainTick inputs targets deltas).void
  | prepareTraining targets rate =>
      exact moving_backed.prepareTraining targets (backed_takeRate rate)
  | init | compile | addNeuron | addSynapse | deleteNeuron | deleteSynapse | updateSynapseWeight
  | importGraph | exportGraph | syncWeights | injectInput | tick | setTraining | attend =>
      exact respects moving_backed rfl

/-- Only closing an engine that is marked as trained leaves a mark that is not backed. -/
theorem Deed.backed_perform_iff (d : Deed α) {e : Engine α} (he : e.Backed) :
    (d.perform.after e).Backed ↔ (d = .act .close → e.trained = false) := by
  cases d with
  | openLoop rate =>
      have hkept := respects_openLoop (backed_takeRate rate) e he
      constructor
      · intro _ hclose
        cases hclose
      · exact fun _ => hkept
  | act a =>
      by_cases hclose : a = .close
      · rw [hclose]
        exact (backed_close_iff e).trans ⟨fun h _ => h, fun h => h rfl⟩
      · have hkept := Action.backed_perform hclose e he
        exact ⟨fun _ hact => absurd (Deed.act.inj hact) hclose, fun _ => hkept⟩

namespace Engine

/-!
## Writing back
-/

omit [Scalar α] in
theorem spares_refresh : Spares .notReady (refresh (α := α)) := by
  refine spares_get_bind fun e => ?_
  have hneurons := Store.getAll_avoids_notReady
    (fun row : NeuronRow => Neuron.make_avoids_notReady _ _ _ _) e.neuronStore
  refine ((spares_of hneurons).bind fun ns => (spares_modify _).bind fun _ => ?_) e
  refine spares_get_bind fun e => ?_
  have hsynapses := Store.getAll_avoids_notReady
    (fun row : SynapseRow => Synapse.make_avoids_notReady _ _ _ _) e.synapseStore
  exact ((spares_of hsynapses).bind fun ss => spares_modify _) e

theorem spares_syncNeuron (c : Compiled α) (biases : Array α) (n : Neuron) :
    Spares .notReady (syncNeuron c biases n) := by
  have hindex : Avoids .notReady (c.indexOf n.id) := by
    rw [Compiled.indexOf]
    split
    · exact avoids_error (by decide)
    · split
      · exact avoids_ok _
      · exact avoids_error (by simp [Fault.family])
  refine (spares_of hindex).bind fun i => ?_
  dsimp only
  split
  · refine (spares_of (Neuron.make_avoids_notReady _ _ _ _)).bind fun n => ?_
    refine Spares.bind (spares_onPart ?_) fun _ => spares_modify _
    exact Store.update_spares_notReady Neuron.revised_avoids_notReady n
  · exact spares_pure _

theorem spares_syncSynapse (c : Compiled α) (weights : Array α) (s : Synapse) :
    Spares .notReady (syncSynapse c weights s) := by
  rw [syncSynapse]
  split
  · exact fun e => avoids_error (by decide)
  · split
    · exact spares_pure _
    · dsimp only
      split
      · exact spares_onPart (Store.update_spares_notReady Synapse.revised_avoids_notReady _)
      · exact spares_pure _

/-- Writing back before something else never fails because nothing is compiled or prepared. -/
def Syncs (e : Engine α) : Prop := Avoids .notReady (syncIfTrained.outcome e).1

/-- A backed mark is all it takes to write parameters back. -/
theorem Backed.syncs {e : Engine α} (he : e.Backed) : e.Syncs := by
  rw [Syncs, syncIfTrained, outcome_get_bind]
  cases htrained : e.trained with
  | false => exact avoids_ok _
  | true =>
      rcases he htrained with ⟨hc, b, hb, hstage⟩
      rcases Option.isSome_iff_exists.mp hc with ⟨c, hc⟩
      have hread := Backend.readParameters_avoids_notReady hstage
      rw [if_pos rfl, syncWeights, outcome_get_bind, hc]
      simp only [hb, Option.isNone_some, Bool.false_eq_true, if_false]
      rw [outcome_bind, outcome_onBackend hb]
      cases hrun : (Backend.readParameters.outcome b).1 with
      | error f =>
          rw [hrun] at hread
          exact avoids_error (hread f rfl)
      | ok parameters =>
          refine Spares.bind (spares_forM (spares_syncNeuron c _) _) (fun _ => ?_) _
          refine (spares_forM (spares_syncSynapse c _) _).bind fun _ => ?_
          exact spares_refresh.bind fun _ => spares_modify _

/-- After a trained engine has been closed, nothing can be written back. -/
theorem outcome_syncIfTrained_of_close {e : Engine α} (h : e.trained = true) :
    syncIfTrained.outcome (close.after e) = (.error .nothingCompiled, close.after e) := by
  have htrained : (close.after e).trained = true := h
  rw [syncIfTrained, outcome_get_bind, htrained, if_pos rfl, syncWeights, outcome_get_bind]
  rfl

theorem not_syncs_of_close {e : Engine α} (h : e.trained = true) : ¬(close.after e).Syncs := by
  intro hsyncs
  rw [Syncs, outcome_syncIfTrained_of_close h] at hsyncs
  exact hsyncs _ rfl rfl

/-!
## Histories
-/

/-- What an engine has come to when some deeds were done, one after the other. -/
def follow (ds : List (Deed α)) (e : Engine α) : Engine α :=
  ds.foldl (fun e d => d.perform.after e) e

/-- Whether no close comes while the engine is marked as trained. -/
def ClosesUntrained : List (Deed α) → Engine α → Prop
  | [], _ => True
  | d :: ds, e => (d = .act .close → e.trained = false) ∧ ClosesUntrained ds (d.perform.after e)

/--
What a backed mark brings about, and what closing a trained engine takes away, is there all along
a history if and only if the engine is not closed with the mark.
-/
theorem throughout_iff {Q : Engine α → Prop} (hbacked : ∀ e : Engine α, e.Backed → Q e)
    (hclose : ∀ e : Engine α, e.trained = true → ¬Q (close.after e)) {e : Engine α}
    (he : e.Backed) (ds : List (Deed α)) :
    (∀ done, done <+: ds → Q (e.follow done)) ↔ e.ClosesUntrained ds := by
  induction ds generalizing e with
  | nil =>
      refine ⟨fun _ => trivial, fun _ done hdone => ?_⟩
      rw [List.prefix_nil.mp hdone]
      exact hbacked e he
  | cons d rest ih =>
      constructor
      · intro h
        have hd : Q (d.perform.after e) := h [d] (List.cons_prefix_cons.mpr ⟨rfl, List.nil_prefix⟩)
        have huntrained : d = .act .close → e.trained = false := by
          rintro rfl
          rw [← Bool.not_eq_true]
          exact fun htrained => hclose e htrained hd
        refine ⟨huntrained, (ih ((d.backed_perform_iff he).mpr huntrained)).mp ?_⟩
        exact fun done hdone => h (d :: done) (List.cons_prefix_cons.mpr ⟨rfl, hdone⟩)
      · rintro ⟨huntrained, hrest⟩ done hdone
        cases done with
        | nil => exact hbacked e he
        | cons d' done =>
            rcases List.cons_prefix_cons.mp hdone with ⟨rfl, hlater⟩
            exact (ih ((d'.backed_perform_iff he).mpr huntrained)).mpr hrest done hlater

/--
Whatever is done with an engine from its creation on, the mark of a trained engine is backed all
the time, and writing back never fails for want of a compiled graph or a prepared backend, if
and only if the engine is never closed while it is marked.
-/
theorem mark_backed_iff (host : Host) (settings : EngineSettings) (training : TrainingSettings)
    (neuronStore : Store Neuron) (synapseStore : Store Synapse) (backend : Option (Backend α))
    (ds : List (Deed α)) :
    let e := create host settings training neuronStore synapseStore backend
    ((∀ done, done <+: ds → (e.follow done).Backed) ↔ e.ClosesUntrained ds) ∧
      ((∀ done, done <+: ds → (e.follow done).Syncs) ↔ e.ClosesUntrained ds) := by
  intro e
  have he : e.Backed := backed_of_untrained rfl
  constructor
  · refine throughout_iff (fun _ h => h) (fun e htrained h => ?_) he ds
    rw [backed_close_iff, htrained] at h
    cases h
  · exact throughout_iff (fun _ h => h.syncs) (fun _ htrained => not_syncs_of_close htrained) he ds

/-- A training tick of the engine in which an input leads to an output. -/
def tickLinked : Deed Float32 :=
  .act (.trainTick (some (.ok #[1.0, 0.0])) (some (.ok #[-999.0, 0.5])) none)

/-- An engine that has trained is exported before it is closed. -/
theorem mark_backed_iff_exported :
    (linked.follow [.act .init, tickLinked]).trained = true ∧
      (linked.follow [.act .init, tickLinked, .act .exportGraph, .act .close]).Backed := by
  have hbacked := (mark_backed_iff {} .trainable .default (.keyed (.ofList endpoints))
    (.keyed (.ofList [link])) none [.act .init, tickLinked, .act .exportGraph, .act .close]).1
  refine ⟨by decide +kernel, hbacked.mpr ?_ _ (List.prefix_refl _)⟩
  refine ⟨fun h => ?_, fun h => ?_, fun h => ?_, fun _ => by decide +kernel, trivial⟩
  · cases h
  · cases h
  · cases h

/-- An engine that has trained and is closed keeps a mark that nothing backs, and fails on it. -/
theorem mark_not_backed_closed :
    (¬∀ ds : List (Deed Float32), (linked.follow ds).Backed) ∧
      (exportGraph.outcome (linked.follow [.act .init, tickLinked, .act .close])).1 =
        .error .nothingCompiled := by
  have htrained : (linked.follow [.act .init, tickLinked]).trained = true := by decide +kernel
  constructor
  · intro h
    have hclosed : (linked.follow [.act .init, tickLinked]).trained = false :=
      (backed_close_iff _).mp (h [.act .init, tickLinked, .act .close])
    rw [htrained] at hclosed
    cases hclosed
  · rw [exportGraph]
    exact congrArg Prod.fst
      (outcome_bind_of_error (outcome_syncIfTrained_of_close htrained) _)

end Engine
end Plexus
