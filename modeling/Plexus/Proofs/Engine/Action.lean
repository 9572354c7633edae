import Plexus.Proofs.Engine.Lifecycle
import Plexus.Proofs.Engine.Tick

/-!
# Actions on an engine

Everything that can be asked of an engine is an action.  Each one, whether it succeeds or
fails, leaves a coherent engine coherent; the cases say what it can have done to the graph and
to the network.
-/

namespace Plexus

/-- What can be asked of an engine. -/
inductive Action (α : Type) where
  | init
  | compile
  | close
  | addNeuron (n : Neuron)
  | addSynapse (s : Synapse)
  | deleteNeuron (id : Value)
  | deleteSynapse (id : Value)
  | updateSynapseWeight (id weight : Value)
  | importGraph (doc : Value)
  | exportGraph
  | syncWeights
  | injectInput (values : Operand α)
  | tick (inputs : Option (Operand α))
  | prepareTraining (targets : Operand α) (rate : Option (Except Fault Float))
  | trainTick (inputs targets deltas : Option (Operand α))
  | setTraining (settings : TrainingSettings)
  /-- Subscribers come and go and are told of events. -/
  | attend (audience : Audience)

namespace Action

open Attempt
open Engine
open Value (IdClass)

variable {α : Type} {P : Value → Prop}

/-- Whether an action trains the network or writes its parameters back. -/
def trains : Action α → Bool
  | .trainTick .. | .syncWeights => true
  | _ => false

/-- Whether an action changes the graph or the settings, and compiles the graph that it leaves. -/
def mutates : Action α → Bool
  | .addNeuron _ | .addSynapse _ | .deleteNeuron _ | .deleteSynapse _ | .updateSynapseWeight ..
  | .setTraining _ => true
  | _ => false

/-- Whether an action reads or writes the graph as a whole, and compiles it. -/
def reloads : Action α → Bool
  | .init | .compile | .importGraph _ => true
  | _ => false

/-- Whether an action leaves the graph and the network as they are, even if it succeeds. -/
def runs : Action α → Bool
  | .exportGraph | .injectInput _ | .tick _ | .prepareTraining .. | .attend _ => true
  | _ => false

/-- The rate that an action sets. -/
def rate? : Action α → Option (Except Fault Float)
  | .prepareTraining _ rate => rate
  | _ => none

/-- Whether an action neither closes the engine, nor trains it, nor sets a rate. -/
def plain : Action α → Bool
  | .close | .trainTick .. => false
  | a => a.rate?.isNone

/-- The synapses that an action adds or rewrites. -/
def writes : Action α → Synapse → Bool
  | .addSynapse s => fun d => d.id.same s.id
  | .updateSynapseWeight id _ => fun d => d.id.equal id
  | _ => fun _ => false

/-- Whether the identifiers that an action brings in belong to a class, and are new if made up. -/
def Admissible (P : Value → Prop) (e : Engine α) : Action α → Prop
  | .init => e.seedIsFresh = true
  | .addNeuron n => P n.id
  | .addSynapse s => P s.id ∧ P s.source ∧ P s.target
  | .importGraph doc => Named P doc
  | _ => True

variable [Scalar α]

/-- Carries an action out. -/
def perform : Action α → Attempt (Engine α) Unit
  | .init => void Engine.init
  | .compile => void Engine.compile
  | .close => Engine.close
  | .addNeuron n => void (Engine.addNeuron n)
  | .addSynapse s => void (Engine.addSynapse s)
  | .deleteNeuron id => void (Engine.deleteNeuron id)
  | .deleteSynapse id => void (Engine.deleteSynapse id)
  | .updateSynapseWeight id weight => void (Engine.updateSynapseWeight id weight)
  | .importGraph doc => void (Engine.importGraph doc)
  | .exportGraph => void Engine.exportGraph
  | .syncWeights => Engine.syncWeights
  | .injectInput values => Engine.injectInput values
  | .tick inputs => void (Engine.tick inputs)
  | .prepareTraining targets rate => Engine.prepareTraining targets rate
  | .trainTick inputs targets deltas => void (Engine.trainTick inputs targets deltas)
  | .setTraining settings => Engine.setTraining settings
  | .attend audience => modify fun e => { e with audience }

end Action

namespace Engine

open Attempt
open Value (IdClass)

variable {α β : Type} {P : Value → Prop} [Scalar α]

/-- What an action that neither trains nor writes back on its own account can come to. -/
inductive Settles (P : Value → Prop) (e e' : Engine α) : Prop
  | rested (h : e.Rested P e')
  | closed (h : e'.Coherent P) (hc : e'.compiled = none)
  | saved (h : e.Saved e') (hcoherent : e'.Coherent P)
  | rebuilt (ns : List Neuron) (ss : List Synapse) (settings : TrainingSettings)
      (h : e'.Rebuilt P ns ss settings)

theorem Settles.coherent {e e' : Engine α} (h : e.Settles P e') : e'.Coherent P := by
  cases h with
  | rested h => exact h.coherent
  | closed h _ => exact h
  | saved _ h => exact h
  | rebuilt _ _ _ h => exact h.coherent

theorem settles_self {e : Engine α} (he : e.Coherent P) : e.Settles P e := .rested (rested_self he)

theorem Settles.of_rests {e e' : Engine α} (h : e.Rested P e' ∨ e.Saved e') (he : e.Coherent P) :
    e.Settles P e' := by
  rcases h with h | h
  · exact .rested h
  · exact .saved h (h.coherent he)

/-- What any action can come to. -/
inductive Advances (P : Value → Prop) (e e' : Engine α) : Prop
  | settled (h : e.Settles P e')
  | synced (c : Compiled α) (weights biases : Array α) (hc : e.compiled = some c)
      (hparameters : e.parameters = some (weights, biases)) (heq : e' = e.synced c weights biases)
  | trained (h : e.Trained P e')

theorem Edits.settles {Q : List Neuron → List Synapse → Prop} {step : Attempt (Engine α) β}
    {e : Engine α} (h : Edits P Q step e) (he : e.Coherent P) :
    e.Settles P (step.after e) := by
  rcases h with ⟨f, hrun⟩ | ⟨r, e', ns, ss, settings, hrun, -, hrebuilt, -⟩
  · rw [after_of_outcome hrun]
    exact settles_self he
  · rw [after_of_outcome hrun]
    exact .rebuilt ns ss settings hrebuilt

theorem Changes.settles {writes : Synapse → Bool} {step : Attempt (Engine α) β} {e : Engine α}
    (h : Changes P writes step e) (he : e.Coherent P) :
    e.Settles P (step.after e) := by
  rcases h with ⟨f, hrun⟩ | ⟨e₁, hsaved, h₁, next, hrun, hedits⟩
  · rw [after_of_outcome hrun]
    exact settles_self he
  · rcases hedits with ⟨f, hnext⟩ | ⟨r, e', ns, ss, settings, hnext, -, hrebuilt, -⟩
    · rw [after_of_outcome (hrun.trans hnext)]
      exact .saved hsaved h₁
    · rw [after_of_outcome (hrun.trans hnext)]
      exact .rebuilt ns ss settings hrebuilt

theorem Edits.void {Q : List Neuron → List Synapse → Prop} {step : Attempt (Engine α) β}
    {e : Engine α} (h : Edits P Q step e) :
    Edits P Q (void step) e := by
  rcases h with ⟨f, hrun⟩ | ⟨r, e', ns, ss, settings, hrun, hQ, hrebuilt, hok⟩
  · apply Or.inl
    refine ⟨f, ?_⟩
    rw [outcome_void, after_of_outcome hrun, hrun]
    rfl
  · apply Or.inr
    refine ⟨r.map fun _ => (), e', ns, ss, settings, ?_, hQ, hrebuilt, ?_⟩
    · rw [outcome_void, after_of_outcome hrun, hrun]
    · intro hr hc
      cases r with
      | ok b => exact hok ⟨b, rfl⟩ hc
      | error f =>
          rcases hr with ⟨_, hr⟩
          cases hr

theorem Changes.void {writes : Synapse → Bool} {step : Attempt (Engine α) β} {e : Engine α}
    (h : Changes P writes step e) :
    Changes P writes (void step) e := by
  rcases h with ⟨f, hrun⟩ | ⟨e₁, hsaved, h₁, next, hrun, hedits⟩
  · apply Or.inl
    refine ⟨f, ?_⟩
    rw [outcome_void, after_of_outcome hrun, hrun]
    rfl
  · apply Or.inr
    refine ⟨e₁, hsaved, h₁, Attempt.void next, ?_, hedits.void⟩
    rw [outcome_void, outcome_void, after, after, hrun]

/-- A successful edit has compiled the graph, if there was one to compile before. -/
theorem Edits.rebuilt {Q : List Neuron → List Synapse → Prop} {step : Attempt (Engine α) β}
    {e : Engine α} (h : Edits P Q step e) (hok : step.succeeds e = true) :
    ∃ ns ss settings, Q ns ss ∧ (step.after e).Rebuilt P ns ss settings ∧
      (e.compiled.isSome = true → (step.after e).compiled.isSome = true) := by
  rcases outcome_of_succeeds hok with ⟨b, hb⟩
  rcases h with ⟨f, hrun⟩ | ⟨r, e', ns, ss, settings, hrun, hQ, hrebuilt, hcompiled⟩
  · rw [hrun] at hb
    cases hb
  · rw [after_of_outcome hrun]
    rw [hrun] at hb
    exact ⟨ns, ss, settings, hQ, hrebuilt, hcompiled ⟨b, congrArg Prod.fst hb⟩⟩

/-- A successful change has written trained parameters back and compiled the changed graph. -/
theorem Changes.rebuilt {writes : Synapse → Bool} {step : Attempt (Engine α) β} {e : Engine α}
    (h : Changes P writes step e) (hok : step.succeeds e = true) :
    ∃ e₁ ns ss settings, e.Saved e₁ ∧ Keeps writes e₁.neurons e₁.synapses ns ss ∧
      (step.after e).Rebuilt P ns ss settings ∧
      (e.compiled.isSome = true → (step.after e).compiled.isSome = true) := by
  rcases h with ⟨f, hrun⟩ | ⟨e₁, hsaved, -, next, hrun, hedits⟩
  · rw [not_succeeds_of_error hrun] at hok
    cases hok
  · have hsucceeds : next.succeeds e₁ = true := by
      rw [Attempt.succeeds, ← hrun]
      exact hok
    have hafter : step.after e = next.after e₁ := by
      rw [after, hrun, after]
    rw [hafter, ← hsaved.compiled]
    rcases hedits.rebuilt hsucceeds with ⟨ns, ss, settings, hkeeps, hrebuilt, hcompiled⟩
    exact ⟨e₁, ns, ss, settings, hsaved, hkeeps, hrebuilt, hcompiled⟩

theorem compile_edits {e : Engine α} (hP : IdClass P) (he : e.Coherent P) :
    Edits P (fun _ _ => True) compile e := by
  rcases compile_rebuilds hP he.stocked he.equipped with ⟨r, e', hrun, hrebuilt, hok⟩
  refine Or.inr ⟨r, e', _, _, _, hrun, trivial, hrebuilt, ?_⟩
  intro hr _
  rcases hr with ⟨c, hc⟩
  rw [hok c hc]
  rfl

theorem close_settles {e : Engine α} (he : e.Coherent P) : e.Settles P (close.after e) := by
  rcases coherent_close he with ⟨e', hrun, hcoherent, hc⟩
  rw [after_of_outcome hrun]
  exact .closed hcoherent hc

theorem exportGraph_cases {e : Engine α} (hP : IdClass P) (he : e.Coherent P) :
    e.Rested P (exportGraph.after e) ∨ e.Saved (exportGraph.after e) := by
  rcases outcome_syncIfTrained_bind hP he (fun _ => get >>= fun t =>
    pure (Document.build t.neurons t.synapses t.settings.version)) with
    ⟨f, hrun⟩ | ⟨e₁, hsaved, h₁, hrun⟩
  · rw [exportGraph, after_of_outcome hrun]
    exact Or.inl (rested_self he)
  · rw [exportGraph, after_of_outcome hrun]
    exact Or.inr hsaved

/-- Writing parameters back on its own account. -/
theorem syncWeights_cases {e : Engine α} (hP : IdClass P) (he : e.Coherent P) :
    (∃ f, syncWeights.outcome e = (.error f, e)) ∨
      ∃ c weights biases, e.compiled = some c ∧ e.parameters = some (weights, biases) ∧
        syncWeights.outcome e = (.ok (), e.synced c weights biases) := by
  cases hc : e.compiled with
  | none =>
      apply Or.inl
      refine ⟨.nothingCompiled, ?_⟩
      rw [syncWeights, outcome_get_bind, hc]
      rfl
  | some c =>
      rcases he.fits c hc with ⟨rows, a, b, hfits⟩
      exact Or.inr ⟨c, _, _, rfl, hfits.parameters_eq,
        outcome_syncWeights hP he.stocked hc hfits⟩

end Engine

namespace Action

open Attempt
open Engine
open Value (IdClass)

variable {α : Type} {P : Value → Prop} [Scalar α]

theorem edits {a : Action α} {e : Engine α} (hP : IdClass P) (he : e.Coherent P)
    (hadmissible : a.Admissible P e) (hreloads : a.reloads = true) :
    Edits P (fun _ _ => True) a.perform e := by
  cases a with
  | init => exact (init_edits hP he hadmissible).void
  | compile => exact (compile_edits hP he).void
  | importGraph doc => exact (importGraph_edits hP he hadmissible).void
  | close | addNeuron | addSynapse | deleteNeuron | deleteSynapse | updateSynapseWeight
  | exportGraph | syncWeights | injectInput | tick | prepareTraining | trainTick | setTraining
  | attend => cases hreloads

/-- A change of the graph writes parameters back and then amends what is stored. -/
theorem amends {a : Action α} {e : Engine α} (hP : IdClass P) (hadmissible : a.Admissible P e)
    (hmutates : a.mutates = true) :
    (∃ settings, a = .setTraining settings) ∨
      ∃ step, a.perform = void (syncIfTrained >>= fun _ => step) ∧ Amends P a.writes step := by
  cases a with
  | addNeuron n => exact Or.inr ⟨_, rfl, amends_createNeuron hP hadmissible⟩
  | addSynapse s => exact Or.inr ⟨_, rfl, amends_createSynapse hP hadmissible.1 hadmissible.2⟩
  | deleteNeuron id => exact Or.inr ⟨_, rfl, amends_remove hP id⟩
  | deleteSynapse id => exact Or.inr ⟨_, rfl, amends_deleteSynapse id⟩
  | updateSynapseWeight id weight => exact Or.inr ⟨_, rfl, amends_reweigh hP id weight⟩
  | setTraining settings => exact Or.inl ⟨settings, rfl⟩
  | init | compile | close | importGraph | exportGraph | syncWeights | injectInput | tick
  | prepareTraining | trainTick | attend => cases hmutates

theorem changes {a : Action α} {e : Engine α} (hP : IdClass P) (he : e.Coherent P)
    (hadmissible : a.Admissible P e) (hmutates : a.mutates = true) :
    Changes P a.writes a.perform e := by
  rcases a.amends hP hadmissible hmutates with ⟨settings, rfl⟩ | ⟨step, hperform, hamends⟩
  · exact setTraining_changes hP he settings
  · rw [hperform]
    exact (hamends.changes hP he).void

/-- An action that runs an engine at most writes trained parameters back. -/
theorem rests {a : Action α} {e : Engine α} (hP : IdClass P) (he : e.Coherent P)
    (hruns : a.runs = true) :
    e.Rested P (a.perform.after e) ∨ e.Saved (a.perform.after e) := by
  cases a with
  | exportGraph =>
      rw [perform, after_void]
      exact exportGraph_cases hP he
  | injectInput values =>
      exact Or.inl ((rests_injectInput values).rested ((checks_requireCompiled _).bind _) he)
  | tick inputs =>
      rw [perform, after_void]
      exact Or.inl ((rests_tick inputs).rested ((checks_requireCompiled _).bind _) he)
  | prepareTraining targets rate =>
      exact Or.inl
        ((rests_prepareTraining targets rate).rested ((checks_requireTrainable _).bind _) he)
  | attend audience => exact Or.inl (rested_withAudience he audience)
  | init | compile | close | addNeuron | addSynapse | deleteNeuron | deleteSynapse
  | updateSynapseWeight | importGraph | syncWeights | trainTick | setTraining => cases hruns

/-- An action that does not train leaves a coherent engine that is easy to describe. -/
theorem settles {a : Action α} {e : Engine α} (hP : IdClass P) (he : e.Coherent P)
    (hadmissible : a.Admissible P e) (htrains : a.trains = false) :
    e.Settles P (a.perform.after e) := by
  cases a with
  | init | compile | importGraph => exact (edits hP he hadmissible rfl).settles he
  | addNeuron | addSynapse | deleteNeuron | deleteSynapse | updateSynapseWeight | setTraining =>
      exact (changes hP he hadmissible rfl).settles he
  | close => exact close_settles he
  | exportGraph | injectInput | tick | prepareTraining | attend =>
      exact .of_rests (rests hP he rfl) he
  | syncWeights | trainTick => cases htrains

theorem advances {a : Action α} {e : Engine α} (hP : IdClass P) (he : e.Coherent P)
    (hadmissible : a.Admissible P e) :
    e.Advances P (a.perform.after e) := by
  cases htrains : a.trains with
  | false => exact .settled (settles hP he hadmissible htrains)
  | true =>
      cases a with
      | trainTick inputs targets deltas =>
          rw [perform, after_void]
          rcases trainTick_cases he inputs targets deltas with h | h
          · exact .settled (.rested h)
          · exact .trained h
      | syncWeights =>
          rcases syncWeights_cases hP he with
            ⟨f, hrun⟩ | ⟨c, weights, biases, hc, hparameters, hrun⟩
          · rw [perform, after_of_outcome hrun]
            exact .settled (settles_self he)
          · rw [perform, after_of_outcome hrun]
            exact .synced c weights biases hc hparameters rfl
      | init | compile | close | addNeuron | addSynapse | deleteNeuron | deleteSynapse
      | updateSynapseWeight | importGraph | exportGraph | injectInput | tick | prepareTraining
      | setTraining | attend => cases htrains

/-- Every action leaves a coherent engine coherent, whether it succeeds or fails. -/
theorem coherent_after {a : Action α} {e : Engine α} (hP : IdClass P) (he : e.Coherent P)
    (hadmissible : a.Admissible P e) :
    (a.perform.after e).Coherent P := by
  cases advances hP he hadmissible with
  | settled h => exact h.coherent
  | synced c weights biases hc hparameters heq =>
      rw [heq]
      exact coherent_synced he weights biases
  | trained h => exact h.coherent

/-!
## What every action respects
-/

/-- A relation that allows for the moves of an engine is respected by every plain action. -/
theorem respects {R : Engine α → Engine α → Prop} [IsPreorder (Engine α) R] {a : Action α}
    (h : Moving R) (hplain : a.plain = true) :
    Respects R a.perform := by
  have hedit := h.toSyncing.toEditing
  have hcompile := h.toCompiling
  have hrefresh := respects_refreshAndCompile hedit hcompile
  have hsync := h.toSyncing.syncIfTrained
  cases a with
  | init =>
      refine Respects.void ?_
      refine h.toEquipping.equip.bind fun _ => hedit.readGraph.bind fun _ => ?_
      exact hcompile.compile.bind fun _ => respects_projection
  | compile => exact hcompile.compile.void
  | addNeuron n =>
      exact (hsync.bind fun _ => (hedit.onNeurons _).bind fun _ => hrefresh).void
  | addSynapse s =>
      exact (hsync.bind fun _ => (hedit.onSynapses _).bind fun _ => hrefresh).void
  | deleteNeuron id =>
      refine Respects.void (hsync.bind fun _ => respects_get_bind fun e => ?_)
      refine (Respects.forM fun s _ => hedit.onSynapses _).bind (fun _ => ?_) e
      exact (hedit.onNeurons _).bind fun _ => hrefresh
  | deleteSynapse id =>
      exact (hsync.bind fun _ => (hedit.onSynapses _).bind fun _ => hrefresh).void
  | updateSynapseWeight id weight =>
      refine Respects.void (hsync.bind fun _ => (respects_findSynapse id).bind fun s => ?_)
      exact (respects_of _).bind fun s => (hedit.onSynapses _).bind fun _ => hrefresh
  | importGraph doc =>
      refine Respects.void ((respects_of _).bind fun graph => ?_)
      refine ((hedit.replaceStored _ _).onFault ?_).bind fun _ => hrefresh
      exact hrefresh.bind fun _ => respects_pure _
  | exportGraph => exact h.toSyncing.exportGraph.void
  | syncWeights => exact h.toSyncing.syncWeights
  | injectInput values => exact h.toRunning.injectInput values
  | tick inputs => exact (h.toRunning.tick inputs).void
  | prepareTraining targets rate =>
      have hnone : rate = none := Option.isNone_iff_eq_none.mp hplain
      rw [hnone]
      exact h.toRunning.prepareTraining targets (respects_pure ())
  | setTraining settings =>
      refine hsync.bind fun _ => ?_
      refine (respects_modify fun e => h.retrained e settings).bind fun _ => ?_
      refine respects_get_bind fun e => ?_
      split
      · exact (hcompile.compile.bind fun _ => respects_pure _) e
      · exact refl e
  | attend audience => exact fun e => h.audience e audience
  | close | trainTick => cases hplain

end Action
end Plexus
