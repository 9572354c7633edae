import Plexus.Proofs.Engine.Restocking

/-!
# Changing a coherent engine

Every change of the graph ends in a coherent engine, whether it is carried out, refused by a
store or refused by the backend.
-/

namespace Plexus
namespace Engine

open Attempt
open Value (IdClass)

variable {α β : Type} [Scalar α] {P : Value → Prop}

/--
What a step on the graph of an engine comes to: it is refused and nothing has happened, or
the engine has been compiled on a graph that the step may lead to.
-/
def Edits (P : Value → Prop) (Q : List Neuron → List Synapse → Prop)
    (step : Attempt (Engine α) β) (e : Engine α) : Prop :=
  (∃ f, step.outcome e = (.error f, e)) ∨
    ∃ r e' ns ss settings, step.outcome e = (r, e') ∧ Q ns ss ∧ e'.Rebuilt P ns ss settings ∧
      ((∃ b, r = .ok b) → e.compiled.isSome = true → e'.compiled.isSome = true)

/-- What a change comes to: trained parameters are written back before the graph is edited. -/
def Changes (P : Value → Prop) (writes : Synapse → Bool) (step : Attempt (Engine α) β)
    (e : Engine α) : Prop :=
  (∃ f, step.outcome e = (.error f, e)) ∨
    ∃ e₁, e.Saved e₁ ∧ e₁.Coherent P ∧ ∃ next : Attempt (Engine α) β,
      step.outcome e = next.outcome e₁ ∧
      Edits P (Keeps writes e₁.neurons e₁.synapses) next e₁

theorem changes_of_edits {writes : Synapse → Bool} {e : Engine α}
    {next : Unit → Attempt (Engine α) β} (hP : IdClass P) (h : e.Coherent P)
    (hnext : ∀ e₁ : Engine α, e₁.Coherent P →
      Edits P (Keeps writes e₁.neurons e₁.synapses) (next ()) e₁) :
    Changes P writes (syncIfTrained >>= next) e := by
  rcases outcome_syncIfTrained_bind hP h next with hfail | ⟨e₁, hsaved, h₁, hrun⟩
  · exact Or.inl hfail
  · exact Or.inr ⟨e₁, hsaved, h₁, next (), hrun, hnext e₁ h₁⟩

/-- Once the stores have been changed, reading them anew completes the change. -/
theorem Amends.edits {writes : Synapse → Bool} {step : Attempt (Engine α) Projection}
    {e : Engine α} (h : Amends P writes step) (hP : IdClass P) (he : e.Coherent P) :
    Edits P (Keeps writes e.neurons e.synapses) step e := by
  rcases h e true _ _ (tracked_of_cached he.stocked rfl rfl) with
    hfails | ⟨ns, ss, neuronStore, synapseStore, hs, hkeeps, hrun⟩
  · exact Or.inl hfails
  · have hequipped : Equipped { e with neuronStore, synapseStore } :=
      ⟨he.equipped.backend, he.equipped.rate⟩
    rcases refreshAndCompile_rebuilds hP hs hequipped with ⟨r, e', hrefresh, hrebuilt, hok⟩
    refine Or.inr ⟨r, e', ns, ss, _, hrun.trans hrefresh, hkeeps, hrebuilt, ?_⟩
    intro hr _
    rcases hr with ⟨p, hp⟩
    exact hok p hp

theorem Amends.changes {writes : Synapse → Bool} {step : Attempt (Engine α) Projection}
    {e : Engine α} (h : Amends P writes step) (hP : IdClass P) (he : e.Coherent P) :
    Changes P writes (syncIfTrained >>= fun _ => step) e :=
  changes_of_edits hP he fun _ h₁ => h.edits hP h₁

/-!
## Settings
-/

omit [Scalar α] in
theorem equipped_retrained {e : Engine α} (h : e.Equipped) (settings : TrainingSettings) :
    (e.retrained settings).Equipped := by
  rcases h.backend with ⟨b, hb, hequipped⟩
  refine ⟨⟨b.configure settings, ?_, hequipped.configure⟩, h.rate⟩
  rw [retrained, updateBackend, hb, Option.map_some]

/-- Taking over settings leaves the graph and the settings in a compiled engine. -/
theorem retrain_rebuilds {e : Engine α} (hP : IdClass P) (h : e.Coherent P)
    (settings : TrainingSettings) :
    ∃ r e', (retrain settings).outcome e = (r, e') ∧
      e'.Rebuilt P e.neurons e.synapses settings ∧
      ((∃ b, r = .ok b) → e.compiled.isSome = true → e'.compiled.isSome = true) := by
  have hs : (e.retrained settings).Stocked P e.neurons e.synapses :=
    ⟨h.stocked.neuronStore, h.stocked.synapseStore, h.stocked.neurons, h.stocked.synapses,
      h.stocked.ends⟩
  have he := equipped_retrained h.equipped settings
  cases hc : e.compiled with
  | none =>
      have hnone : (e.retrained settings).compiled = none := hc
      refine ⟨.ok (), e.retrained settings, ?_, rebuilt_of_not_compiled hs he hnone, ?_⟩
      · rw [retrain, outcome_modify_bind, outcome_get_bind, hnone]
        rfl
      · intro _ hsome
        cases hsome
  | some c =>
      have hsome : (e.retrained settings).compiled = some c := hc
      rcases compile_rebuilds hP hs he with ⟨r, e', hrun, hrebuilt, hok⟩
      refine ⟨r.map fun _ => (), e', ?_, hrebuilt, ?_⟩
      · rw [retrain, outcome_modify_bind, outcome_get_bind, hsome, Option.isSome_some, if_pos rfl,
          outcome_bind, hrun]
        cases r <;> rfl
      · intro hr _
        cases r with
        | error f =>
            rcases hr with ⟨_, hr⟩
            cases hr
        | ok d =>
            rw [hok d rfl]
            rfl

theorem setTraining_changes {e : Engine α} (hP : IdClass P) (h : e.Coherent P)
    (settings : TrainingSettings) :
    Changes P (fun _ => false) (setTraining settings) e := by
  apply changes_of_edits hP h
  intro e₁ h₁
  rcases retrain_rebuilds hP h₁ settings with ⟨r, e', hrun, hrebuilt, hok⟩
  exact Or.inr ⟨r, e', _, _, _, hrun,
    keeps_of_sublist (List.Sublist.refl _) (List.Sublist.refl _), hrebuilt, hok⟩

omit [Scalar α] in
/-- A compiled network has a slot for each cached neuron. -/
theorem Coherent.size_eq {e : Engine α} (h : e.Coherent P)
    (hcompiled : e.compiled.isSome = true) :
    e.size = e.neurons.length := by
  rcases h.exists_fits hcompiled with ⟨c, rows, a, b, hc, hfits⟩
  rw [size, hc, Option.map_some, Option.getD_some, hfits.size]

/-- Settings that an engine takes over leave it compiled, and its network as large as before. -/
theorem setTraining_eq_ok {e e' : Engine α} {settings : TrainingSettings} (hP : IdClass P)
    (h : e.Coherent P) (hcompiled : e.compiled.isSome = true)
    (hrun : (setTraining settings).outcome e = (.ok (), e')) :
    e'.Coherent P ∧ e'.compiled.isSome = true ∧ e'.training = settings ∧ e'.size = e.size := by
  rcases outcome_syncIfTrained_bind hP h (fun _ => retrain settings) with
    ⟨f, hfails⟩ | ⟨e₁, hsaved, h₁, hretrain⟩
  · rw [setTraining, hfails] at hrun
    cases hrun
  · rcases retrain_rebuilds hP h₁ settings with ⟨r, e₂, hstep, hrebuilt, hok⟩
    rw [setTraining, hretrain, hstep] at hrun
    cases hrun
    have hcompiled' := hok ⟨(), rfl⟩ (hsaved.compiled.symm ▸ hcompiled)
    refine ⟨hrebuilt.coherent, hcompiled', hrebuilt.training, ?_⟩
    have hlength := congrArg List.length hsaved.ids
    rw [List.length_map, List.length_map] at hlength
    rw [hrebuilt.coherent.size_eq hcompiled', h.size_eq hcompiled, hrebuilt.neurons, hlength]

end Engine
end Plexus
