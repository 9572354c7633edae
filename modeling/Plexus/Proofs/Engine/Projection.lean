import Plexus.Proofs.Compiled.Projection
import Plexus.Proofs.Engine.Order
import Plexus.Proofs.Engine.Writing
import Plexus.Proofs.Store.Unique

/-!
# What an engine answers an edit with

Every change of the graph ends in reading the stores anew, compiling what they hold and projecting
it.  As the stores keep one entry under a name, the answer describes the graph that was compiled,
whatever has been done with the engine before.
-/

namespace Plexus

/-- A change of the graph that is answered with a projection. -/
inductive Edit where
  | addNeuron (n : Neuron)
  | addSynapse (s : Synapse)
  | deleteNeuron (id : Value)
  | deleteSynapse (id : Value)
  | updateSynapseWeight (id weight : Value)
  | importGraph (doc : Value)

open Attempt
open Engine

namespace Edit

variable {α : Type}

/-- An edit as something that can be asked of an engine, its answer apart. -/
def action : Edit → Action α
  | addNeuron n => .addNeuron n
  | addSynapse s => .addSynapse s
  | deleteNeuron id => .deleteNeuron id
  | deleteSynapse id => .deleteSynapse id
  | updateSynapseWeight id weight => .updateSynapseWeight id weight
  | importGraph doc => .importGraph doc

variable [Scalar α]

/-- Carries an edit out. -/
def perform : Edit → Attempt (Engine α) Projection
  | addNeuron n => Engine.addNeuron n
  | addSynapse s => Engine.addSynapse s
  | deleteNeuron id => Engine.deleteNeuron id
  | deleteSynapse id => Engine.deleteSynapse id
  | updateSynapseWeight id weight => Engine.updateSynapseWeight id weight
  | importGraph doc => Engine.importGraph doc

theorem perform_action (edit : Edit) : (edit.action : Action α).perform = void edit.perform := by
  cases edit <;> rfl

/-- A step that ends in compiling what the stores hold. -/
def Recompiles (step : Attempt (Engine α) Projection) : Prop :=
  ∀ e e' p, step.outcome e = (.ok p, e') → ∃ t, refreshAndCompile.outcome t = (.ok p, e')

theorem recompiles_refreshAndCompile : Recompiles (refreshAndCompile (α := α)) :=
  fun e _ _ h => ⟨e, h⟩

theorem Recompiles.after {β : Type} {next : β → Attempt (Engine α) Projection}
    (h : ∀ b, Recompiles (next b)) (first : Attempt (Engine α) β) :
    Recompiles (first >>= next) := by
  intro e e' p hrun
  rcases outcome_bind_eq_ok hrun with ⟨b, t, -, hnext⟩
  exact h b t e' p hnext

theorem recompiles (edit : Edit) : Recompiles (edit.perform (α := α)) := by
  have hend := Recompiles.after fun _ : Unit => recompiles_refreshAndCompile (α := α)
  cases edit with
  | addNeuron | addSynapse | deleteSynapse => exact Recompiles.after (fun _ => hend _) _
  | deleteNeuron =>
      refine Recompiles.after (fun _ => ?_) _
      refine Recompiles.after (fun _ => ?_) _
      exact Recompiles.after (fun _ => hend _) _
  | updateSynapseWeight =>
      refine Recompiles.after (fun _ => ?_) _
      refine Recompiles.after (fun _ => ?_) _
      exact Recompiles.after (fun _ => hend _) _
  | importGraph => exact Recompiles.after (fun _ => hend _) _

end Edit

namespace Engine

variable {α : Type} [Scalar α]

/--
What an engine that keeps its neurons in memory or in a table, whatever has been written there, can
come to from its creation on, and whether it has been initialised on the way.
-/
inductive Housed : Bool → Engine α → Prop
  | created {kind : StoreKind} (hkind : kind ≠ .plain) (host : Host) (settings : EngineSettings)
      (training : TrainingSettings) (ws : List (Write Neuron)) (synapseStore : Store Synapse)
      (backend : Option (Backend α)) :
      Housed false
        (create host settings training (Write.run (.empty kind) ws) synapseStore backend)
  | done {initialised : Bool} {e : Engine α} (h : Housed initialised e) (d : Deed α) :
      Housed (initialised || (d.initialises && d.perform.succeeds e)) (d.perform.after e)

theorem Housed.operated {initialised : Bool} {e : Engine α} (h : e.Housed initialised) :
    e.Operated initialised := by
  induction h with
  | created => exact .created ..
  | done _ d ih => exact ih.done d

theorem Housed.unique {initialised : Bool} {e : Engine α} (h : e.Housed initialised) :
    e.neuronStore.Unique := by
  induction h with
  | created hkind _ _ _ ws => exact Store.lasting_unique.run (Store.unique_empty hkind) ws
  | done _ d ih =>
      rcases (d.writes_perform _).neurons with ⟨ws, hws⟩
      rw [hws]
      exact Store.lasting_unique.run ih ws

theorem Housed.edited {e e' : Engine α} {edit : Edit} {p : Projection} (h : e.Housed true)
    (hrun : edit.perform.outcome e = (.ok p, e')) : e'.Housed true := by
  have hdone := h.done (.act edit.action)
  rw [Deed.perform, edit.perform_action, after_void, after_of_outcome hrun] at hdone
  exact hdone

/-- Reading the stores anew and compiling what they hold projects the cache that it compiles. -/
theorem refreshAndCompile_eq_ok {e e' : Engine α} {p : Projection}
    (hready : e'.hasReadyBackend = true) (h : refreshAndCompile.outcome e = (.ok p, e')) :
    e'.neuronStore.getAll = .ok e'.neurons ∧ e'.synapseStore.getAll = .ok e'.synapses ∧
      e'.compiled = some (Compiled.flatten e'.neurons e'.synapses) ∧
      p = Projection.ofGraph e'.neurons e'.synapses := by
  rcases outcome_bind_eq_ok h with ⟨_, t, hrefresh, h⟩
  rcases outcome_refresh_eq_ok hrefresh with ⟨ns, ss, hns, hss, rfl⟩
  rw [outcome_get_bind] at h
  split at h
  · rcases outcome_bind_eq_ok h with ⟨c, t, hcompile, h⟩
    rcases compile_eq_ok hcompile with ⟨hname, hc⟩
    have hsame := compiling_undisturbed.compile (e.withCache ns ss)
    rw [after_of_outcome hcompile] at hsame
    rw [← hsame.neurons, ← hsame.synapses] at hname hc
    rw [outcome_projection_of_nameable hname] at h
    cases h
    refine ⟨?_, ?_, hc, rfl⟩
    · rw [hsame.neuronStore, hsame.neurons]
      exact hns
    · rw [hsame.synapseStore, hsame.synapses]
      exact hss
  · next hnot =>
    -- Without a backend nothing is compiled, and the projection leaves the engine without one.
    have hsame := respects_projection (R := Eq) (e.withCache ns ss)
    rw [after_of_outcome h] at hsame
    rw [hsame] at hnot
    exact absurd hready hnot

/--
The answer to an edit of an initialised engine describes what has been compiled: its nodes are the
compiled neurons with their indices, its edges are the stored synapses between neurons, in the
order of the store, and each cell of the matrix has the weight of the last edge that is drawn there.
-/
theorem edit_describes_compiled {e e' : Engine α} {edit : Edit} {p : Projection}
    (h : e.Housed true) (hrun : edit.perform.outcome e = (.ok p, e'))
    (htext : ∀ n ∈ e'.neurons, n.id.IsText) :
    e'.neuronStore.getAll = .ok e'.neurons ∧ e'.synapseStore.getAll = .ok e'.synapses ∧
      ∃ c, e'.compiled = some c ∧ c.ids = e'.neurons.map Neuron.id ∧
        p.Describes e'.synapses c := by
  have hhoused := h.edited hrun
  have hready := (hhoused.operated.primed rfl).booted.hasReadyBackend
  rcases edit.recompiles e e' p hrun with ⟨t, hlast⟩
  rcases refreshAndCompile_eq_ok hready hlast with ⟨hns, hss, hc, rfl⟩
  have hnodup := hhoused.unique.nodup_of_getAll hns htext
  exact ⟨hns, hss, _, hc, rfl, Projection.describes_ofGraph e'.synapses htext hnodup⟩

/-- An engine on a table of neurons, one of which leads to the next, and that by two synapses on. -/
def forked : Engine Float32 :=
  create {} .trainable .default
    (Write.run (.empty .table)
      [.create (linearNeuron "a" 0.0), .create (linearNeuron "b" 0.5),
        .create (linearNeuron "c" 0.0)])
    (.keyed (.ofList
      [⟨.text "s", .text "a", .text "b", 1.0⟩, ⟨.text "t", .text "b", .text "c", 2.0⟩,
        ⟨.text "u", .text "b", .text "c", 3.0⟩]))
    none

/-- Without the first neuron the others have other indices; both edges between them are drawn. -/
theorem edit_describes_compiled_forked :
    (init.after forked).Housed true ∧ ∃ p e' c,
      (Edit.deleteNeuron (.text "a")).perform.outcome (init.after forked) = (.ok p, e') ∧
        e'.compiled = some c ∧ c.size = 2 ∧ p.edges.length = 2 ∧ p.Describes e'.synapses c := by
  have hinit : init.succeeds forked = true := by decide +kernel
  have hkind : StoreKind.table ≠ .plain := by decide
  have hcreated : forked.Housed false := .created hkind _ _ _ _ _ _
  have hhoused := hcreated.done (.act .init)
  rw [Deed.perform, Action.perform, succeeds_void, after_void, hinit] at hhoused
  -- What is said of the run is computed first, as it stands below only as a state and an answer.
  have hok : (Edit.deleteNeuron (.text "a")).perform.succeeds (init.after forked) = true := by
    decide +kernel
  have hafter : ∀ e', (Edit.deleteNeuron (.text "a")).perform.after (init.after forked) = e' →
      (∀ n ∈ e'.neurons, n.id.IsText) ∧ e'.neurons.length = 2 := by
    rintro _ rfl
    decide +kernel
  have hedges : ∀ r, ((Edit.deleteNeuron (.text "a")).perform.outcome (init.after forked)).1 = r →
      (r.toOption.map fun p => p.edges.length) = some 2 := by
    rintro _ rfl
    decide +kernel
  rcases outcome_of_succeeds hok with ⟨p, hrun⟩
  rcases hafter _ rfl with ⟨htext, hlength⟩
  rcases edit_describes_compiled hhoused hrun htext with ⟨-, -, c, hc, hids, hdescribes⟩
  refine ⟨hhoused, p, _, c, hrun, hc, ?_, ?_, hdescribes⟩
  · rw [← hdescribes.size, hids, List.length_map, hlength]
  · exact Option.some.inj (hedges _ (congrArg Prod.fst hrun))

end Engine
end Plexus
