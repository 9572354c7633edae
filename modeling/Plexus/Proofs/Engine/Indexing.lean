import Plexus.Proofs.Engine.Order

/-!
# The indices of a projection

The projection of an engine numbers the neurons in the order of the cache.  These numbers are
places in the tensors as long as the cache has the order of the compiled graph: on stores that
update entries in place always, on others unless a neuron has been moved to the end.
-/

namespace Plexus

/-!
## Deeds
-/

open Attempt
open Engine
open Value (IsText)

variable {α : Type} [Scalar α]

theorem Action.placed_of_reloads {a : Action α} {moves : List Value} {e e' : Engine α}
    (hreloads : a.reloads = true) (h : e.Placed moves) (hprimed : e.Primed)
    (hrun : a.perform.outcome e = (.ok (), e')) : e'.Placed [] := by
  cases a with
  | init =>
      rcases outcome_void_eq_ok hrun with ⟨p, hrun⟩
      exact placed_of_init h.tidy hrun
  | compile =>
      rcases outcome_void_eq_ok hrun with ⟨c, hrun⟩
      exact h.toCurrent.placed_of_compile hrun
  | importGraph doc =>
      rcases outcome_void_eq_ok hrun with ⟨p, hrun⟩
      exact restores_importGraph doc e e' p ⟨h.tidy, hprimed.booted.hasReadyBackend⟩ hrun
  | close | addNeuron | addSynapse | deleteNeuron | deleteSynapse | updateSynapseWeight
  | exportGraph | syncWeights | injectInput | tick | prepareTraining | trainTick | setTraining
  | attend => cases hreloads

theorem Action.placed_of_mutates {a : Action α} {moves : List Value} {e e' : Engine α}
    (hmutates : a.mutates = true) (h : e.Placed moves) (hprimed : e.Primed)
    (hdistinct : Distinct IsText e.neurons) (hrun : a.perform.outcome e = (.ok (), e')) :
    e'.Placed [] := by
  have hrefresh : Unit → Restores (refreshAndCompile (α := α)) :=
    fun _ => restores_refreshAndCompile
  cases a with
  | addNeuron n =>
      rcases outcome_void_eq_ok hrun with ⟨p, hrun⟩
      exact h.of_change hprimed hdistinct
        (Restores.after (neat_onNeurons (Store.tends_create n)) hrefresh) hrun
  | addSynapse s =>
      rcases outcome_void_eq_ok hrun with ⟨p, hrun⟩
      exact h.of_change hprimed hdistinct (Restores.after (neat_onSynapses _) hrefresh) hrun
  | deleteNeuron id =>
      rcases outcome_void_eq_ok hrun with ⟨p, hrun⟩
      refine h.of_change hprimed hdistinct ?_ hrun
      have hget : Respects (Kept Neat) (get : Attempt (Engine α) (Engine α)) := fun _ he => he
      refine Restores.after hget fun t => ?_
      refine Restores.after (Respects.forM fun s _ => neat_onSynapses _) fun _ => ?_
      exact Restores.after (neat_onNeurons (Store.tends_delete id)) hrefresh
  | deleteSynapse id =>
      rcases outcome_void_eq_ok hrun with ⟨p, hrun⟩
      exact h.of_change hprimed hdistinct (Restores.after (neat_onSynapses _) hrefresh) hrun
  | updateSynapseWeight id weight =>
      rcases outcome_void_eq_ok hrun with ⟨p, hrun⟩
      refine h.of_change hprimed hdistinct ?_ hrun
      refine Restores.after (respects_findSynapse id) fun s => ?_
      refine Restores.after (respects_of _) fun s' => ?_
      exact Restores.after (neat_onSynapses _) hrefresh
  | setTraining settings => exact h.of_setTraining hdistinct hrun
  | init | compile | close | importGraph | exportGraph | syncWeights | injectInput | tick
  | prepareTraining | trainTick | attend => cases hmutates

/-- The neurons that have been written back since the last compilation, once a deed is done. -/
def Deed.moves (d : Deed α) (e : Engine α) (moves : List Value) : List Value :=
  match d with
  | .act .syncWeights => moves ++ e.outdated
  | .act .exportGraph => if e.trained then moves ++ e.outdated else moves
  | .act a => if a.reloads || a.mutates then [] else moves
  | .openLoop _ => moves

theorem Deed.placed_perform {d : Deed α} {moves : List Value} {e e' : Engine α}
    (h : e.Placed moves) (hprimed : e.Primed) (hdistinct : Distinct IsText e.neurons)
    (hrun : d.perform.outcome e = (.ok (), e')) : e'.Placed (d.moves e moves) := by
  have hrests : ∀ {step : Attempt (Engine α) Unit}, step.outcome e = (.ok (), e') →
      Respects Undisturbed step → Respects (Fixes compiled) step → e'.Placed moves := by
    intro step hstep hsame hfixed
    have hsame' := hsame e
    have hfixed' : (step.after e).compiled = e.compiled := hfixed e
    rw [after_of_outcome hstep] at hsame' hfixed'
    exact h.of_undisturbed hsame' fun c hc => hfixed' ▸ hc
  cases d with
  | openLoop rate =>
      exact hrests hrun (respects_openLoop (undisturbed_takeRate rate))
        (respects_openLoop (compiled_takeRate rate))
  | act a =>
      have hact : a.perform.outcome e = (.ok (), e') := hrun
      cases a with
      | init | compile | importGraph => exact Action.placed_of_reloads rfl h hprimed hact
      | addNeuron | addSynapse | deleteNeuron | deleteSynapse | updateSynapseWeight
      | setTraining => exact Action.placed_of_mutates rfl h hprimed hdistinct hact
      | syncWeights => exact h.of_syncWeights hdistinct hrun
      | exportGraph =>
          rcases outcome_void_eq_ok hrun with ⟨v, hrun⟩
          rcases outcome_bind_eq_ok hrun with ⟨_, t, hsync, hrun⟩
          cases hrun
          exact h.of_syncIfTrained hdistinct hsync
      | close =>
          cases hrun
          exact (h.toCurrent.of_undisturbed (undisturbed_close e)).placed_of_not_compiled rfl moves
      | injectInput values =>
          exact hrests hrun (running_undisturbed.injectInput values)
            (running_fixes_compiled.injectInput values)
      | tick inputs =>
          exact hrests hrun (running_undisturbed.tick inputs).void
            (running_fixes_compiled.tick inputs).void
      | prepareTraining targets rate =>
          exact hrests hrun
            (running_undisturbed.prepareTraining targets (undisturbed_takeRate rate))
            (running_fixes_compiled.prepareTraining targets (compiled_takeRate rate))
      | trainTick inputs targets deltas =>
          exact hrests hrun (undisturbed_trainTick inputs targets deltas).void
            (running_fixes_compiled.trainTick inputs targets deltas
              (compiled_onBackend _) fun _ => rfl).void
      | attend audience =>
          exact hrests hrun (respects_modify fun e => running_undisturbed.audience e audience)
            (respects_modify fun _ => rfl)

namespace Engine

/--
What an engine on whatever stores and backend can come to while all that is done with it succeeds
and its neurons are told apart, and the neurons that have been written back since the last
compilation, in order.
-/
inductive Served : List Value → Engine α → Prop
  | opened {host : Host} {settings : EngineSettings} {training : TrainingSettings}
      {neuronStore : Store Neuron} {synapseStore : Store Synapse} {backend : Option (Backend α)}
      {e : Engine α} (hcreate : create host settings training neuronStore synapseStore backend = e)
      (htidy : neuronStore.Tidy) (hinit : init.succeeds e = true)
      (hdistinct : Distinct IsText (init.after e).neurons) : Served [] (init.after e)
  | done {moves : List Value} {e : Engine α} (h : Served moves e) (d : Deed α)
      (hok : d.perform.succeeds e = true)
      (hdistinct : Distinct IsText (d.perform.after e).neurons) :
      Served (d.moves e moves) (d.perform.after e)

theorem Served.distinct {moves : List Value} {e : Engine α} (h : e.Served moves) :
    Distinct IsText e.neurons := by
  cases h with
  | opened _ _ _ hdistinct => exact hdistinct
  | done _ _ _ hdistinct => exact hdistinct

theorem Served.operated {moves : List Value} {e : Engine α} (h : e.Served moves) :
    e.Operated true := by
  induction h with
  | @opened host settings training neuronStore synapseStore backend e hcreate _ hinit _ =>
      have hdone := (Operated.created host settings training neuronStore synapseStore backend).done
        (.act .init)
      rw [hcreate, Deed.perform, Action.perform, succeeds_void, after_void, hinit] at hdone
      exact hdone
  | done _ d _ _ ih => exact ih.done d

theorem Served.placed {moves : List Value} {e : Engine α} (h : e.Served moves) :
    e.Placed moves := by
  induction h with
  | opened hcreate htidy hinit _ =>
      rcases outcome_of_succeeds hinit with ⟨p, hrun⟩
      rw [← hcreate] at hrun ⊢
      exact placed_of_init htidy hrun
  | done h d hok _ ih =>
      rcases outcome_of_succeeds hok with ⟨_, hrun⟩
      exact d.placed_perform ih (h.operated.primed rfl) h.distinct hrun

/-- The nodes of a projection have the places of their identifiers in a list of the same length. -/
theorem nodes_placed_iff {ns : List Neuron} {ss : List Synapse} {ids : List Value}
    (hlength : ns.length = ids.length) :
    (∀ node ∈ (Projection.ofGraph ns ss).nodes, ids[node.index]? = some node.id) ↔
      ns.map Neuron.id = ids := by
  constructor
  · intro h
    refine List.ext_getElem? fun i => ?_
    rw [List.getElem?_map]
    cases hn : ns[i]? with
    | none =>
        rw [List.getElem?_eq_none_iff, hlength] at hn
        exact (List.getElem?_eq_none_iff.mpr hn).symm
    | some n =>
        have hmem : (n, i) ∈ ns.zipIdx := List.mem_zipIdx_iff_getElem?.mpr hn
        exact (h ⟨n.id, i, n.kind⟩ (List.mem_map_of_mem hmem)).symm
  · rintro rfl node hnode
    rcases List.mem_map.mp hnode with ⟨⟨n, i⟩, hmem, rfl⟩
    rw [List.getElem?_map, List.mem_zipIdx_iff_getElem?.mp hmem]
    rfl

/--
While all that is done with an engine succeeds and its neurons are told apart, its graph can be
projected.  Each node of the projection has the index of its neuron in the compiled graph if the
stores keep the place of an updated entry.  If they move it to the end, this is so exactly if the
neurons that have been written back since the last compilation, moved to the end in turn, are in
the compiled order again.
-/
theorem nodes_indexed_iff {moves : List Value} {e : Engine α} {c : Compiled α}
    (h : e.Served moves) (hc : e.compiled = some c) :
    ∃ p, projection.outcome e = (.ok p, e) ∧
      ((∀ node ∈ p.nodes, c.ids[node.index]? = some node.id) ↔
        e.neuronStore.isKeyed = true ∨ moves.foldl toEnd c.ids = c.ids) := by
  have hplaced := h.placed
  have hname : Compiled.nameable e.neurons e.synapses = true := by
    rw [Compiled.nameable, Bool.and_eq_true, List.all_eq_true, List.all_eq_true]
    constructor
    · intro n hn
      exact (Value.idClass_isText.isKey _ (h.distinct.named n hn)).1
    · intro s hs
      exact Bool.and_eq_true_iff.mpr (hplaced.linkable c hc s hs)
  have hlength : e.neurons.length = c.ids.length := by
    rw [← (hplaced.perm c hc).length_eq, List.length_map]
  refine ⟨_, outcome_projection_of_nameable hname, ?_⟩
  rw [nodes_placed_iff hlength, hplaced.order c hc, Store.reordered]
  cases e.neuronStore.isKeyed with
  | true => simp
  | false => simp

/-- What an engine has come to when it has been initialised, trained and exported. -/
def exportedAfter (d : Deed α) (e : Engine α) : Engine α :=
  (Deed.act .exportGraph).perform.after (d.perform.after (init.after e))

/-- In memory, the places agree after training and an export. -/
theorem nodes_indexed_iff_linked :
    ∃ moves c p, (exportedAfter tickLinked linked).Served moves ∧
      (exportedAfter tickLinked linked).compiled = some c ∧
      projection.outcome (exportedAfter tickLinked linked) =
        (.ok p, exportedAfter tickLinked linked) ∧
      ∀ node ∈ p.nodes, c.ids[node.index]? = some node.id := by
  have htidy : linked.neuronStore.Tidy := by
    intro p hp
    rcases List.mem_map.mp hp with ⟨n, -, rfl⟩
    rfl
  have hopened : (init.after linked).Served [] :=
    Served.opened rfl htidy (by decide +kernel) (by decide +kernel)
  have htrained := hopened.done tickLinked (by decide +kernel) (by decide +kernel)
  have hserved := htrained.done (.act .exportGraph) (by decide +kernel) (by decide +kernel)
  have hsome : (exportedAfter tickLinked linked).compiled.isSome = true := by decide +kernel
  have hkeyed : (exportedAfter tickLinked linked).neuronStore.isKeyed = true := by decide +kernel
  rw [exportedAfter] at hsome hkeyed ⊢
  rcases Option.isSome_iff_exists.mp hsome with ⟨c, hc⟩
  rcases nodes_indexed_iff hserved hc with ⟨p, hp, hiff⟩
  exact ⟨_, c, p, hserved, hc, hp, hiff.mpr (Or.inl hkeyed)⟩

/-- An engine on plain stores in which an input leads to an output. -/
def listed : Engine Float32 :=
  create {} .trainable .default (.plain ⟨endpoints⟩) (.plain ⟨[link]⟩) none

/-- A training tick with a target for the input alone. -/
def tickInput : Deed Float32 :=
  .act (.trainTick (some (.ok #[1.0, 0.0])) (some (.ok #[0.5, -999.0])) none)

/-- If training has changed the first bias only, then an export moves its neuron to the end. -/
theorem nodes_not_indexed_listed :
    ¬∀ (moves : List Value) (e : Engine Float32) (c : Compiled Float32) (p : Projection),
      e.Served moves → e.compiled = some c → projection.outcome e = (.ok p, e) →
        ∀ node ∈ p.nodes, c.ids[node.index]? = some node.id := by
  intro h
  have hopened : (init.after listed).Served [] :=
    Served.opened rfl trivial (by decide +kernel) (by decide +kernel)
  have htrained := hopened.done tickInput (by decide +kernel) (by decide +kernel)
  have hserved := htrained.done (.act .exportGraph) (by decide +kernel) (by decide +kernel)
  have hname : Compiled.nameable (exportedAfter tickInput listed).neurons
      (exportedAfter tickInput listed).synapses = true := by
    decide +kernel
  have hfirst : ((exportedAfter tickInput listed).neurons.head?.map fun n =>
      n.id.same (.text "b")) = some true := by
    decide +kernel
  have hcompiled : ((exportedAfter tickInput listed).compiled.map fun c =>
      c.ids.head?.map (Value.same (.text "a"))) = some (some true) := by
    decide +kernel
  rw [exportedAfter] at hname hfirst hcompiled
  revert hserved hname hfirst hcompiled
  generalize (Deed.act .exportGraph).perform.after
    (tickInput.perform.after (init.after listed)) = e
  intro hserved hname hfirst hcompiled
  rcases Option.map_eq_some_iff.mp hcompiled with ⟨c, hc, hids⟩
  rcases Option.map_eq_some_iff.mp hfirst with ⟨n, hn, hb⟩
  rw [List.head?_eq_getElem?] at hn hids
  have hmem : (n, 0) ∈ e.neurons.zipIdx := List.mem_zipIdx_iff_getElem?.mpr hn
  have hnode := h _ e c _ hserved hc (outcome_projection_of_nameable hname)
    ⟨n.id, 0, n.kind⟩ (List.mem_map_of_mem hmem)
  rw [hnode, Option.map_some, Option.some.injEq] at hids
  have hid : n.id = .text "a" := Value.eq_of_text_same ⟨"a", rfl⟩ hids
  rw [hid] at hb
  exact absurd hb (by decide)

end Engine
end Plexus
