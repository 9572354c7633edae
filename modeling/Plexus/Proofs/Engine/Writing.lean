import Plexus.Proofs.Engine.Initialised
import Plexus.Proofs.Engine.Tracking
import Plexus.Proofs.Store.Writes

/-!
# What an engine does to its stores

Whatever is done with an engine, and whether it succeeds or fails, its stores come to what some
writes make of them.  So what all writes leave true of a store stays true of the stores of an
engine.
-/

namespace Plexus
namespace Engine

open Attempt

variable {α β : Type}

/-- The stores of an engine after some writes, whatever else of it has changed. -/
structure Writes (e e' : Engine α) : Prop where
  neurons : ∃ ws, e'.neuronStore = Write.run e.neuronStore ws
  synapses : ∃ ws, e'.synapseStore = Write.run e.synapseStore ws

theorem writes_of_stores {e e' : Engine α} (hn : e'.neuronStore = e.neuronStore)
    (hs : e'.synapseStore = e.synapseStore) : e.Writes e' :=
  ⟨⟨[], hn⟩, ⟨[], hs⟩⟩

instance : IsPreorder (Engine α) Writes where
  refl _ := writes_of_stores rfl rfl
  trans := by
    rintro e₁ e₂ e₃ ⟨⟨ns, hns⟩, ⟨ss, hss⟩⟩ ⟨⟨ns', hns'⟩, ⟨ss', hss'⟩⟩
    refine ⟨⟨ns ++ ns', ?_⟩, ⟨ss ++ ss', ?_⟩⟩
    · rw [hns', hns, Write.run_append]
    · rw [hss', hss, Write.run_append]

theorem Undisturbed.writes {e e' : Engine α} (h : e.Undisturbed e') : e.Writes e' :=
  writes_of_stores h.neuronStore h.synapseStore

theorem writes_of_undisturbed {step : Attempt (Engine α) β} (h : Respects Undisturbed step) :
    Respects Writes step :=
  fun e => (h e).writes

theorem writes_onNeurons (w : Write Neuron) : Respects Writes (onNeurons (α := α) w.perform) :=
  fun _ => ⟨⟨[w], rfl⟩, ⟨[], rfl⟩⟩

theorem writes_onSynapses (w : Write Synapse) :
    Respects Writes (onSynapses (α := α) w.perform) :=
  fun _ => ⟨⟨[], rfl⟩, ⟨[w], rfl⟩⟩

/-!
## Reading the stores and writing to them
-/

theorem writes_refresh : Respects Writes (refresh (α := α)) := by
  refine respects_get_bind fun e => ?_
  refine ((respects_of _).bind fun ns => ?_) e
  refine Respects.bind (respects_modify fun _ => writes_of_stores rfl rfl) fun _ => ?_
  refine respects_get_bind fun e => ?_
  refine ((respects_of _).bind fun ss => ?_) e
  exact respects_modify fun _ => writes_of_stores rfl rfl

theorem writes_seedDefaultNetwork : Respects Writes (seedDefaultNetwork (α := α)) := by
  have hissue : Respects Writes (issueId (α := α)) :=
    respects_get_bind fun _ => writes_of_stores rfl rfl
  refine hissue.bind fun _ => hissue.bind fun _ => ?_
  refine (writes_onNeurons (.create _)).bind fun _ => ?_
  refine (writes_onNeurons (.create _)).bind fun _ => ?_
  exact hissue.bind fun _ => writes_onSynapses (.create _)

theorem writes_readGraph : Respects Writes (readGraph (α := α)) := by
  refine writes_refresh.bind fun _ => respects_get_bind fun e => ?_
  split
  · exact (writes_seedDefaultNetwork.bind fun _ => writes_refresh) e
  · exact refl e

theorem writes_replaceStored (ns : List Neuron) (ss : List Synapse) :
    Respects Writes (replaceStored (α := α) ns ss) := by
  refine (writes_onSynapses .clear).bind fun _ => (writes_onNeurons .clear).bind fun _ => ?_
  refine (Respects.forM fun n _ => writes_onNeurons (.create n)).bind fun _ => ?_
  exact Respects.forM fun s _ => writes_onSynapses (.create s)

variable [Scalar α]

theorem writes_syncNeuron (c : Compiled α) (biases : Array α) (n : Neuron) :
    Respects Writes (syncNeuron c biases n) := by
  refine (respects_of _).bind fun i => ?_
  dsimp only
  split
  · refine (respects_of _).bind fun m => (writes_onNeurons (.update m)).bind fun _ => ?_
    exact respects_modify fun _ => writes_of_stores rfl rfl
  · exact respects_pure _

theorem writes_syncSynapse (c : Compiled α) (weights : Array α) (s : Synapse) :
    Respects Writes (syncSynapse c weights s) := by
  refine respects_guard ?_
  split
  · exact respects_pure _
  · dsimp only
    split
    · exact writes_onSynapses (.update _)
    · exact respects_pure _

theorem writes_syncWeights : Respects Writes (syncWeights (α := α)) := by
  refine respects_get_bind fun e => ?_
  split
  · exact refl e
  · next c hc =>
    refine respects_guard ?_ e
    refine (writes_of_undisturbed (undisturbed_onBackend _)).bind fun parameters => ?_
    refine (Respects.forM fun n _ => writes_syncNeuron c _ n).bind fun _ => ?_
    refine (Respects.forM fun s _ => writes_syncSynapse c _ s).bind fun _ => ?_
    exact writes_refresh.bind fun _ => respects_modify fun _ => writes_of_stores rfl rfl

theorem writes_syncIfTrained : Respects Writes (syncIfTrained (α := α)) := by
  refine respects_get_bind fun e => ?_
  split
  · exact writes_syncWeights e
  · exact refl e

theorem writes_compile : Respects Writes (compile (α := α)) :=
  writes_of_undisturbed compiling_undisturbed.compile

theorem writes_refreshAndCompile : Respects Writes (refreshAndCompile (α := α)) := by
  refine writes_refresh.bind fun _ => respects_get_bind fun e => ?_
  split
  · exact (writes_compile.bind fun _ => respects_projection) e
  · exact respects_projection e

/-- A change of the graph writes parameters back, writes the change and reads the stores anew. -/
theorem writes_change {step : Attempt (Engine α) β} (h : Respects Writes step) :
    Respects Writes (syncIfTrained >>= fun _ => step >>= fun _ => refreshAndCompile) :=
  writes_syncIfTrained.bind fun _ => h.bind fun _ => writes_refreshAndCompile

end Engine

open Attempt
open Engine

variable {α : Type} [Scalar α]

theorem Action.writes_perform (a : Action α) : Respects Writes a.perform := by
  cases a with
  | init =>
      refine Respects.void ?_
      refine (writes_of_undisturbed equipping_undisturbed.equip).bind fun _ => ?_
      refine writes_readGraph.bind fun _ => ?_
      exact writes_compile.bind fun _ => respects_projection
  | compile => exact writes_compile.void
  | addNeuron n => exact (writes_change (writes_onNeurons (.create n))).void
  | addSynapse s => exact (writes_change (writes_onSynapses (.create s))).void
  | deleteNeuron id =>
      refine Respects.void (writes_syncIfTrained.bind fun _ => respects_get_bind fun e => ?_)
      refine (Respects.forM fun s _ => writes_onSynapses (.delete s.id)).bind (fun _ => ?_) e
      exact (writes_onNeurons (.delete id)).bind fun _ => writes_refreshAndCompile
  | deleteSynapse id => exact (writes_change (writes_onSynapses (.delete id))).void
  | updateSynapseWeight id weight =>
      refine Respects.void (writes_syncIfTrained.bind fun _ => ?_)
      refine (respects_findSynapse id).bind fun s => (respects_of _).bind fun d => ?_
      exact (writes_onSynapses (.update d)).bind fun _ => writes_refreshAndCompile
  | importGraph doc =>
      refine Respects.void ((respects_of _).bind fun graph => ?_)
      refine ((writes_replaceStored _ _).onFault ?_).bind fun _ => writes_refreshAndCompile
      exact writes_refreshAndCompile.bind fun _ => respects_pure _
  | exportGraph => exact (writes_syncIfTrained.bind fun _ => respects_get_bind fun e => refl e).void
  | syncWeights => exact writes_syncWeights
  | setTraining settings =>
      refine writes_syncIfTrained.bind fun _ => ?_
      refine Respects.bind (respects_modify fun _ => writes_of_stores rfl rfl) fun _ => ?_
      refine respects_get_bind fun e => ?_
      split
      · exact (writes_compile.bind fun _ => respects_pure _) e
      · exact refl e
  | close => exact writes_of_undisturbed undisturbed_close
  | injectInput values => exact writes_of_undisturbed (running_undisturbed.injectInput values)
  | tick inputs => exact writes_of_undisturbed (running_undisturbed.tick inputs).void
  | prepareTraining targets rate =>
      exact writes_of_undisturbed
        (running_undisturbed.prepareTraining targets (undisturbed_takeRate rate))
  | trainTick inputs targets deltas =>
      exact writes_of_undisturbed (undisturbed_trainTick inputs targets deltas).void
  | attend audience => exact respects_modify fun _ => writes_of_stores rfl rfl

theorem Deed.writes_perform (d : Deed α) : Respects Writes d.perform := by
  cases d with
  | act a => exact a.writes_perform
  | openLoop rate =>
      exact writes_of_undisturbed (respects_openLoop (undisturbed_takeRate rate))

end Plexus
