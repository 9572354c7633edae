import Plexus.Proofs.Training.Rate

/-!
# How the cache of an engine follows its stores

An engine on keyed stores reads them for the first time when it is initialised or changed.  From
then on its cache holds the graph that the stores hold, up to parameters that were written back
only in part.  Before that it holds nothing.  This is so on every backend, and whether the
backend takes the graph or not.
-/

namespace Plexus

open Attempt
open Value (IdClass)

namespace Engine

variable {α β γ : Type} {P : Value → Prop}

/-!
## Leaving the graph alone
-/

/-- An engine with the same graph in its stores and in its cache as another one. -/
structure Undisturbed (e e' : Engine α) : Prop where
  neuronStore : e'.neuronStore = e.neuronStore
  synapseStore : e'.synapseStore = e.synapseStore
  neurons : e'.neurons = e.neurons
  synapses : e'.synapses = e.synapses
  settings : e'.settings = e.settings
  issued : e'.issued = e.issued

instance : IsPreorder (Engine α) Undisturbed where
  refl _ := ⟨rfl, rfl, rfl, rfl, rfl, rfl⟩
  trans _ _ _ h h' :=
    ⟨h'.neuronStore.trans h.neuronStore, h'.synapseStore.trans h.synapseStore,
      h'.neurons.trans h.neurons, h'.synapses.trans h.synapses, h'.settings.trans h.settings,
      h'.issued.trans h.issued⟩

theorem undisturbed_onBackend (step : Attempt (Backend α) β) :
    Respects Undisturbed (onBackend step) :=
  respects_onBackend fun _ _ _ => ⟨rfl, rfl, rfl, rfl, rfl, rfl⟩

theorem undisturbed_keepTargets [Scalar α] (targets : Operand α) :
    Respects Undisturbed (keepTargets targets) :=
  (respects_of _).bind fun _ => respects_modify fun _ => ⟨rfl, rfl, rfl, rfl, rfl, rfl⟩

theorem undisturbed_takeRate [Scalar α] (rate : Option (Except Fault Float)) :
    Respects Undisturbed (takeRate (α := α) rate) := by
  cases rate with
  | none => exact respects_pure ()
  | some r =>
      exact (respects_of r).bind fun _ => respects_modify fun _ => ⟨rfl, rfl, rfl, rfl, rfl, rfl⟩

theorem equipping_undisturbed : Equipping (Undisturbed (α := α)) where
  acquire _ _ _ _ := ⟨rfl, rfl, rfl, rfl, rfl, rfl⟩
  boot e _ := undisturbed_onBackend _ e
  retrained _ _ := ⟨rfl, rfl, rfl, rfl, rfl, rfl⟩

theorem undisturbed_close : Respects Undisturbed (close (α := α)) :=
  respects_modify fun _ => ⟨rfl, rfl, rfl, rfl, rfl, rfl⟩

variable [Scalar α]

theorem compiling_undisturbed : Compiling (Undisturbed (α := α)) where
  load c := by
    refine Respects.onFault (respects_get_bind fun e => undisturbed_onBackend _ e) ?_
    exact respects_modify fun _ => ⟨rfl, rfl, rfl, rfl, rfl, rfl⟩
  compiled _ _ := ⟨rfl, rfl, rfl, rfl, rfl, rfl⟩
  installed _ _ := ⟨rfl, rfl, rfl, rfl, rfl, rfl⟩
  renewTargets cells := by
    refine respects_get_bind fun e => ?_
    split
    · rw [after, outcome_set_bind]
      have h := undisturbed_onBackend
        (Backend.prepareTraining (.ok (blankTargets cells)) e.rate.toFloat)
        { e with targets := some (blankTargets cells) }
      exact ⟨h.neuronStore, h.synapseStore, h.neurons, h.synapses, h.settings, h.issued⟩
    · exact refl e

theorem running_undisturbed : Running (Undisturbed (α := α)) where
  staged _ _ := ⟨rfl, rfl, rfl, rfl, rfl, rfl⟩
  audience _ _ := ⟨rfl, rfl, rfl, rfl, rfl, rfl⟩
  forward _ := undisturbed_onBackend _
  supervise targets :=
    respects_get_bind fun e => ((undisturbed_onBackend _).bind fun _ =>
      undisturbed_keepTargets targets) e
  setTargets targets := (undisturbed_onBackend _).bind fun _ => undisturbed_keepTargets targets

theorem undisturbed_trainTick (inputs targets deltas : Option (Operand α)) :
    Respects Undisturbed (trainTick inputs targets deltas) :=
  running_undisturbed.trainTick inputs targets deltas (undisturbed_onBackend _)
    fun _ => ⟨rfl, rfl, rfl, rfl, rfl, rfl⟩

omit [Scalar α] in
theorem Undisturbed.stocked {ns : List Neuron} {ss : List Synapse} {e e' : Engine α}
    (h : e.Undisturbed e') (hs : e.Stocked P ns ss) : e'.Stocked P ns ss :=
  hs.of_stores h.neuronStore h.synapseStore

omit [Scalar α] in
theorem Undisturbed.seedIsFresh {e e' : Engine α} (h : e.Undisturbed e') :
    e'.seedIsFresh = e.seedIsFresh := by
  rw [Engine.seedIsFresh, h.neuronStore, h.synapseStore, h.settings, h.issued]
  rfl

/-!
## Following the stores
-/

section Following

omit [Scalar α]

/-- The cache of an engine follows its stores, whatever these hold. -/
def Follows (P : Value → Prop) (read : Bool) (e : Engine α) : Prop :=
  ∃ ns ss, e.Tracked P read ns ss

theorem Tracked.of_undisturbed {read : Bool} {ns : List Neuron} {ss : List Synapse}
    {e e' : Engine α} (h : e.Tracked P read ns ss) (hsame : e.Undisturbed e') :
    e'.Tracked P read ns ss := by
  refine ⟨hsame.stocked h.stocked, ?_⟩
  rw [hsame.neurons, hsame.synapses]
  exact h.cached

theorem Follows.of_undisturbed {read : Bool} {e e' : Engine α} (h : e.Follows P read)
    (hsame : e.Undisturbed e') : e'.Follows P read := by
  rcases h with ⟨ns, ss, htracked⟩
  exact ⟨ns, ss, htracked.of_undisturbed hsame⟩

theorem Follows.of_read {e : Engine α} (h : e.Follows P true) (read : Bool) :
    e.Follows P read := by
  rcases h with ⟨ns, ss, hstocked, hcached | ⟨hread, -⟩⟩
  · exact ⟨ns, ss, hstocked, Or.inl hcached⟩
  · cases hread

/-- A step that reads the stores if it succeeds, and whose cache follows them in any case. -/
def Rereads (P : Value → Prop) (step : Attempt (Engine α) β) : Prop :=
  ∀ (e : Engine α) read, e.Follows P read →
    (step.after e).Follows P (read || step.succeeds e)

theorem Rereads.respects {step : Attempt (Engine α) β} (h : Rereads P step) (read : Bool) :
    Respects (Kept (Follows P read)) step := by
  intro e he
  have hafter := h e read he
  cases read with
  | true => exact hafter
  | false =>
      cases hsucceeds : step.succeeds e with
      | true =>
          rw [hsucceeds] at hafter
          exact hafter.of_read false
      | false =>
          rw [hsucceeds] at hafter
          exact hafter

theorem Rereads.bind {step : Attempt (Engine α) β} {next : β → Attempt (Engine α) γ}
    (h : ∀ read, Respects (Kept (Follows P read)) step) (hnext : ∀ b, Rereads P (next b)) :
    Rereads P (step >>= next) := by
  intro e read he
  have hstep := h read e he
  cases hrun : step.outcome e with
  | mk r t =>
      rw [after_of_outcome hrun] at hstep
      cases r with
      | error f =>
          have hfails := outcome_bind_of_error hrun next
          rw [after_of_outcome hfails, not_succeeds_of_error hfails, Bool.or_false]
          exact hstep
      | ok b =>
          have hafter := hnext b t read hstep
          rw [after, Attempt.succeeds, outcome_bind_of_ok hrun]
          exact hafter

theorem Rereads.void {step : Attempt (Engine α) β} (h : Rereads P step) :
    Rereads P (void step) := by
  intro e read he
  rw [after_void, succeeds_void]
  exact h e read he

/-!
## Writing back
-/

/-- An engine whose stores hold the graph of another one, up to parameters, and its cache. -/
def Rewritten (P : Value → Prop) (ns : List Neuron) (ss : List Synapse) (e e' : Engine α) : Prop :=
  ∃ ns' ss', e'.Stocked P ns' ss' ∧ Revises ns ss ns' ss' ∧ e'.neurons = e.neurons ∧
    e'.synapses = e.synapses

variable {read : Bool} {ns : List Neuron} {ss : List Synapse}

theorem rewritten_onNeurons {n : Neuron} {e e' : Engine α} (hP : IdClass P)
    (hn : n.shape ∈ ns.map Neuron.shape) (h : Rewritten P ns ss e e') :
    Rewritten P ns ss e ((onNeurons (Store.update n)).after e') := by
  rcases h with ⟨ns', ss', hs, hrevises, hneurons, hsynapses⟩
  rw [← hrevises.neurons] at hn
  rcases outcome_update_of_shape hP Neuron.shape (fun _ => rfl) hs.neurons hn with
    ⟨xs, d, ys, -, hdistinct, hshape, hrun⟩
  rw [after_of_outcome (outcome_onNeurons hs.neuronStore hrun)]
  exact ⟨_, ss', ⟨rfl, hs.synapseStore, hdistinct, hs.synapses, hs.ends⟩,
    ⟨hshape.trans hrevises.neurons, hrevises.synapses⟩, hneurons, hsynapses⟩

theorem rewritten_onSynapses {s : Synapse} {e e' : Engine α} (hP : IdClass P)
    (hmem : s.shape ∈ ss.map Synapse.shape) (h : Rewritten P ns ss e e') :
    Rewritten P ns ss e ((onSynapses (Store.update s)).after e') := by
  rcases h with ⟨ns', ss', hs, hrevises, hneurons, hsynapses⟩
  rw [← hrevises.synapses] at hmem
  rcases outcome_update_of_shape hP Synapse.shape (fun _ => rfl) hs.synapses hmem with
    ⟨xs, d, ys, -, hdistinct, hshape, hrun⟩
  rw [after_of_outcome (outcome_onSynapses hs.synapseStore hrun)]
  exact ⟨ns', _, ⟨hs.neuronStore, rfl, hs.neurons, hdistinct, ends_of_shape hs.ends hshape⟩,
    ⟨hrevises.neurons, hshape.trans hrevises.synapses⟩, hneurons, hsynapses⟩

theorem shape_of_make {n m : Neuron} {bias : Float}
    (h : Neuron.make n.id (.text n.kind.tag) (.real bias) n.activation = .ok m) :
    m.shape = n.shape := by
  rcases bind_eq_ok h with ⟨kind, hkind, h⟩
  rw [Kind.ofValue_tag] at hkind
  cases hkind
  rcases bind_eq_ok h with ⟨x, -, h⟩
  split at h
  · next tag htag =>
    split at h
    · cases h
      rw [Neuron.shape, Neuron.shape, htag]
    · cases h
  · cases h

theorem Tracked.of_rewritten {e e' : Engine α} (h : e.Tracked P read ns ss)
    (hrewritten : Rewritten P ns ss e e') :
    ∃ ns' ss', Revises ns ss ns' ss' ∧ e'.Tracked P read ns' ss' := by
  rcases hrewritten with ⟨ns', ss', hs, hrevises, hneurons, hsynapses⟩
  refine ⟨ns', ss', hrevises, hs, ?_⟩
  rw [hneurons, hsynapses]
  rcases h.cached with hcached | hnothing
  · exact Or.inl (hrevises.symm.trans hcached)
  · exact Or.inr hnothing

/-- What a step on the way to writing parameters back comes to, if it ends with reading them. -/
def Saves (P : Value → Prop) (read : Bool) (ns : List Neuron) (ss : List Synapse)
    (step : Attempt (Engine α) β) (e : Engine α) : Prop :=
  ∃ ns' ss', Revises ns ss ns' ss' ∧ (step.after e).Tracked P read ns' ss' ∧
    (step.succeeds e = true → (step.after e).Tracked P true ns' ss')

theorem saves_of_error {step : Attempt (Engine α) β} {e t u : Engine α} {f : Fault}
    (h : e.Tracked P read ns ss) (hrewritten : Rewritten P ns ss e u)
    (hrun : step.outcome t = (.error f, u)) : Saves P read ns ss step t := by
  rcases h.of_rewritten hrewritten with ⟨ns', ss', hrevises, htracked⟩
  rw [Saves, after_of_outcome hrun, not_succeeds_of_error hrun]
  exact ⟨ns', ss', hrevises, htracked, fun hok => absurd hok Bool.false_ne_true⟩

theorem saves_bind {step : Attempt (Engine α) β} {next : β → Attempt (Engine α) γ}
    {e t : Engine α} (h : e.Tracked P read ns ss) (hstep : Rewritten P ns ss e (step.after t))
    (hnext : ∀ b u, Rewritten P ns ss e u → Saves P read ns ss (next b) u) :
    Saves P read ns ss (step >>= next) t := by
  cases hrun : step.outcome t with
  | mk r u =>
      rw [after_of_outcome hrun] at hstep
      cases r with
      | error f => exact saves_of_error h hstep (outcome_bind_of_error hrun next)
      | ok b =>
          rw [Saves, after, Attempt.succeeds, outcome_bind_of_ok hrun]
          exact hnext b u hstep

/-- Once both stores have been written to, they are read. -/
theorem saves_refresh {e t : Engine α} (hrewritten : Rewritten P ns ss e t) :
    Saves P read ns ss (refresh >>= fun _ => modify fun e => { e with trained := false }) t := by
  rcases hrewritten with ⟨ns', ss', hs, hrevises, -⟩
  have hrun := outcome_bind_of_ok (outcome_refresh hs)
    fun _ => (modify fun e => { e with trained := false } : Attempt (Engine α) Unit)
  have htracked : Tracked P true ns' ss' { t.withCache ns' ss' with trained := false } :=
    tracked_of_cached (hs.of_stores rfl rfl) rfl rfl
  rw [Saves, after, hrun]
  refine ⟨ns', ss', hrevises, ⟨htracked.stocked, Or.inl (.refl ns' ss')⟩, fun _ => htracked⟩

end Following

variable {read : Bool} {ns : List Neuron} {ss : List Synapse}

theorem rewritten_syncNeuron {n : Neuron} {e e' : Engine α} (hP : IdClass P) (c : Compiled α)
    (biases : Array α) (hn : n.shape ∈ ns.map Neuron.shape) (h : Rewritten P ns ss e e') :
    Rewritten P ns ss e ((syncNeuron c biases n).after e') := by
  refine bind_induction (I := Rewritten P ns ss e) h fun i t ht => ?_
  dsimp only
  split
  · cases hmake : Neuron.make n.id (.text n.kind.tag)
        (.real (Scalar.toFloat (Scalar.cell biases i))) n.activation with
    | error f => exact ht
    | ok m =>
        rw [after, outcome_of_ok_bind]
        have hm : m.shape ∈ ns.map Neuron.shape := shape_of_make hmake ▸ hn
        refine bind_induction (I := Rewritten P ns ss e) (rewritten_onNeurons hP hm ht) ?_
        rintro _ u ⟨ns', ss', hs, hrevises, hcached⟩
        exact ⟨ns', ss', hs.of_stores rfl rfl, hrevises, hcached⟩
  · exact ht

theorem rewritten_syncSynapse {s : Synapse} {e e' : Engine α} (hP : IdClass P) (c : Compiled α)
    (weights : Array α) (hs : s.shape ∈ ss.map Synapse.shape) (h : Rewritten P ns ss e e') :
    Rewritten P ns ss e ((syncSynapse c weights s).after e') := by
  rw [syncSynapse]
  split
  · exact h
  · split
    · exact h
    · dsimp only
      split
      · exact rewritten_onSynapses hP hs h
      · exact h

/-- Parameters that are written back leave the graph; if that succeeds it has been read too. -/
theorem saves_syncWeights {e : Engine α} (hP : IdClass P) (h : e.Tracked P read ns ss) :
    Saves P read ns ss syncWeights e := by
  have hself : Rewritten P ns ss e e := ⟨ns, ss, h.stocked, .refl ns ss, rfl, rfl⟩
  rw [Saves, after, Attempt.succeeds, syncWeights, outcome_get_bind]
  split
  · exact saves_of_error h hself rfl
  · next c hc =>
    split
    · exact saves_of_error h hself rfl
    · have hread := undisturbed_onBackend Backend.readParameters e
      refine saves_bind h ⟨ns, ss, hread.stocked h.stocked, .refl ns ss, hread.neurons,
        hread.synapses⟩ fun p t ht => ?_
      refine saves_bind h (forM_induction (fun n hn u hu => ?_) ht) fun _ t ht => ?_
      · exact rewritten_syncNeuron hP c p.2 (h.shape_mem.1 n hn) hu
      refine saves_bind h (forM_induction (fun s hs u hu => ?_) ht) fun _ t ht => ?_
      · exact rewritten_syncSynapse hP c p.1 (h.shape_mem.2 s hs) hu
      exact saves_refresh ht

theorem syncIfTrained_of_trained {e : Engine α} (h : e.trained = true) :
    syncIfTrained.outcome e = syncWeights.outcome e := by
  rw [syncIfTrained, outcome_get_bind, h, if_pos rfl]

theorem outcome_syncIfTrained_of_untrained {e : Engine α} (h : e.trained = false) :
    syncIfTrained.outcome e = (.ok (), e) := by
  rw [syncIfTrained, outcome_get_bind, h]
  rfl

theorem rereads_syncWeights (hP : IdClass P) : Rereads P (syncWeights (α := α)) := by
  intro e read h
  rcases h with ⟨ns, ss, htracked⟩
  rcases saves_syncWeights hP htracked with ⟨ns', ss', -, hafter, hok⟩
  cases hsucceeds : syncWeights.succeeds e with
  | true => exact Follows.of_read ⟨ns', ss', hok hsucceeds⟩ _
  | false =>
      rw [Bool.or_false]
      exact ⟨ns', ss', hafter⟩

theorem follows_syncIfTrained (hP : IdClass P) (read : Bool) :
    Respects (Kept (Follows P read)) (syncIfTrained (α := α)) := by
  refine respects_get_bind fun e => ?_
  split
  · exact (rereads_syncWeights hP).respects read e
  · exact refl e

/-!
## Changing the graph
-/

/-- Reading the stores anew puts what they hold into the cache, and leaves both at that. -/
theorem undisturbed_refreshAndCompile {ns : List Neuron} {ss : List Synapse} {e : Engine α}
    (hns : e.neuronStore.getAll = .ok ns) (hss : e.synapseStore.getAll = .ok ss) :
    (e.withCache ns ss).Undisturbed (refreshAndCompile.after e) := by
  have hcompile : Respects Undisturbed (get >>= fun e : Engine α =>
      (if e.hasReadyBackend then compile >>= fun _ => projection else projection)) := by
    refine respects_get_bind fun e => ?_
    split
    · exact (compiling_undisturbed.compile.bind fun _ => respects_projection) e
    · exact respects_projection e
  rw [refreshAndCompile, after, outcome_bind_of_ok (outcome_refresh_of_getAll hns hss)]
  exact hcompile (e.withCache ns ss)

/-- Reading the stores anew makes the cache follow them, whether the graph is compiled or not. -/
theorem tracked_refreshAndCompile {ns : List Neuron} {ss : List Synapse} {e : Engine α}
    (hs : e.Stocked P ns ss) : (refreshAndCompile.after e).Tracked P true ns ss := by
  have hcached : Tracked P true ns ss (e.withCache ns ss) :=
    tracked_of_cached (hs.of_stores rfl rfl) rfl rfl
  exact hcached.of_undisturbed (undisturbed_refreshAndCompile hs.getAll.1 hs.getAll.2)

omit [Scalar α] in
theorem Follows.stored {read : Bool} {e : Engine α} (h : e.Follows P read) : e.Stored P := by
  rcases h with ⟨ns, ss, htracked⟩
  exact ⟨ns, ss, htracked.stocked⟩

/-- A change begins with writing parameters back. -/
theorem Amends.rereads {writes : Synapse → Bool} {step : Attempt (Engine α) Projection}
    (h : Amends P writes step) (hP : IdClass P) : Rereads P (syncIfTrained >>= fun _ => step) := by
  refine Rereads.bind (follows_syncIfTrained hP) fun _ e read hfollows => ?_
  rcases hfollows with ⟨ns, ss, htracked⟩
  rcases h e read ns ss htracked with ⟨f, hrun⟩ | ⟨ns', ss', _, _, hs, -, hrun⟩
  · rw [after_of_outcome hrun, not_succeeds_of_error hrun, Bool.or_false]
    exact ⟨ns, ss, htracked⟩
  · rw [after, hrun]
    exact Follows.of_read ⟨ns', ss', tracked_refreshAndCompile hs⟩ _

theorem rereads_importGraph {doc : Value} (hP : IdClass P) (hdoc : Named P doc) :
    Rereads P (importGraph (α := α) doc) := by
  intro e read h
  cases hparse : Document.parse doc with
  | error f =>
      have hrun : (importGraph doc).outcome e = (.error f, e) := by
        rw [importGraph, hparse, outcome_of_error_bind]
      rw [after_of_outcome hrun, not_succeeds_of_error hrun, Bool.or_false]
      exact h
  | ok parsed =>
      have hnamed := hdoc parsed.1 parsed.2 hparse
      rcases stored_replaceStored hP hnamed.1 hnamed.2 e h.stored with ⟨ns, ss, hs⟩
      have hread := tracked_refreshAndCompile hs
      suffices htracked : ((importGraph doc).after e).Tracked P true ns ss from
        Follows.of_read ⟨ns, ss, htracked⟩ _
      rw [importGraph, hparse, after, outcome_of_ok_bind]
      cases hstored : (replaceStored parsed.1 parsed.2 : Attempt (Engine α) Unit).outcome e with
      | mk r t =>
          rw [after_of_outcome hstored] at hread
          cases r with
          | ok _ =>
              rw [outcome_bind_of_ok (outcome_onFault_of_ok hstored _)]
              exact hread
          | error f =>
              rcases outcome_onFault_of_error hstored
                (Attempt.void refreshAndCompile) with ⟨f', hfault⟩
              rw [after_void] at hfault
              have hfails := outcome_bind_of_error hfault fun _ => refreshAndCompile
              exact (congrArg Prod.snd hfails).symm ▸ hread

/-- Initialising reads the stores, or fails before that. -/
theorem init_follows {e : Engine α} {read : Bool} (hP : IdClass P) (h : e.Follows P read)
    (hfresh : e.seedIsFresh = true) : (init.after e).Follows P (read || init.succeeds e) := by
  rcases h.stored with ⟨ns, ss, hs⟩
  have hequipped := equipping_undisturbed.equip e
  cases hequip : (equip : Attempt (Engine α) Unit).outcome e with
  | mk r t =>
      rw [after_of_outcome hequip] at hequipped
      cases r with
      | error f =>
          have hfails : init.outcome e = (.error f, t) := outcome_bind_of_error hequip _
          rw [after_of_outcome hfails, not_succeeds_of_error hfails, Bool.or_false]
          exact h.of_undisturbed hequipped
      | ok _ =>
          have hfresh' := hequipped.seedIsFresh.trans hfresh
          rcases outcome_readGraph hP (hequipped.stocked hs) hfresh' with ⟨u, hread, hstocked, -⟩
          have hcompile : Respects Undisturbed (compile (α := α) >>= fun _ => projection) :=
            compiling_undisturbed.compile.bind fun _ => respects_projection
          have htracked := (tracked_of_cached hstocked rfl rfl).of_undisturbed (hcompile u)
          rw [init, after, outcome_bind_of_ok hequip, outcome_bind_of_ok hread]
          exact Follows.of_read ⟨_, _, htracked⟩ _

end Engine
end Plexus
