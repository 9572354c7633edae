import Mathlib.Data.List.Nodup
import Plexus.Proofs.Engine.Tracking

/-!
# What deleting a neuron leaves in the stores

Deleting a neuron deletes the cached synapses that start or end at it.  Once the stores have
been read these are the stored ones, so nothing is left behind, in whatever state the engine has
come to since.  Before that nothing is cached, and the synapses stay.
-/

namespace Plexus

open Attempt
open Value (IdClass IsText)

/-- Entries that can be kept together are told apart by their identifiers. -/
theorem Distinct.eq_of_id_eq {ε : Type} [Identified ε] {P : Value → Prop} {es : List ε} {d e : ε}
    (hP : IdClass P) (h : Distinct P es) (hd : d ∈ es) (he : e ∈ es)
    (hid : Identified.id d = Identified.id e) : d = e :=
  List.inj_on_of_nodup_map (h.nodup_ids hP) hd he hid

/-- What a property of shapes picks out of lists with the same shapes has the same shapes. -/
theorem map_filter_of_shape {ε : Type} {shape : ε → ε} {p : ε → Bool} {ds es : List ε}
    (hp : ∀ e, p (shape e) = p e) (h : ds.map shape = es.map shape) :
    (ds.filter p).map shape = (es.filter p).map shape := by
  have hcomp : p ∘ shape = p := funext hp
  have hfilter := congrArg (List.filter p) h
  rw [List.filter_map, List.filter_map, hcomp] at hfilter
  exact hfilter

namespace Engine

variable {α : Type} {P : Value → Prop} {read : Bool} {ns : List Neuron} {ss : List Synapse}

/-!
## Deleting from the stores
-/

/-- If the cache is what is stored, up to weights, then nothing is left at the neuron. -/
theorem detached_of_cached {cached : List Synapse} (h : Distinct IsText ss) (id : Value)
    (hcached : cached.map Synapse.shape = ss.map Synapse.shape) :
    detached id cached ss = ss.filter fun s => !touches id s := by
  refine List.filter_congr fun s hs => congrArg Bool.not (Bool.eq_iff_iff.mpr ?_)
  rw [List.any_eq_true]
  constructor
  · rintro ⟨d, hd, hsame⟩
    rcases List.mem_filter.mp hd with ⟨hmem, htouches⟩
    have hshape : d.shape ∈ ss.map Synapse.shape := hcached ▸ List.mem_map_of_mem hmem
    rcases List.mem_map.mp hshape with ⟨d', hd', hsynapse⟩
    have hid : d'.id = d.id := by
      show d'.shape.id = d.shape.id
      rw [hsynapse]
    have hs' : s = d' := by
      refine h.eq_of_id_eq Value.idClass_isText hs hd' ?_
      rw [← hid] at hsame
      exact (Value.same_iff_eq (h.named s hs) (h.named d' hd')).mp hsame
    rw [hs']
    show touches id d'.shape = true
    rw [hsynapse]
    exact htouches
  · intro htouches
    have hshape : s.shape ∈ cached.map Synapse.shape := hcached ▸ List.mem_map_of_mem hs
    rcases List.mem_map.mp hshape with ⟨d, hd, hsynapse⟩
    have hid : d.id = s.id := by
      show d.shape.id = s.shape.id
      rw [hsynapse]
    refine ⟨d, List.mem_filter.mpr ⟨hd, ?_⟩, ?_⟩
    · show touches id d.shape = true
      rw [hsynapse]
      exact htouches
    · rw [hid]
      exact (Value.idClass_isText.isKey _ (h.named s hs)).2

theorem detached_nil (id : Value) (ss : List Synapse) : detached id [] ss = ss :=
  List.filter_eq_self.mpr fun _ _ => rfl

end Engine

/-!
## Whatever is done with an engine
-/

open Engine

variable {α : Type} {P : Value → Prop} {read : Bool}

/-- Whether an action reads the stores anew if it succeeds. -/
def Action.rereads : Action α → Bool
  | .init | .addNeuron _ | .addSynapse _ | .deleteNeuron _ | .deleteSynapse _
  | .updateSynapseWeight .. | .importGraph _ | .syncWeights => true
  | _ => false

variable [Scalar α]

theorem Action.follows_of_rereads {a : Action α} {e : Engine α} (hP : IdClass P)
    (ha : a.Admissible P e) (hrereads : a.rereads = true) (h : e.Follows P read) :
    (a.perform.after e).Follows P (read || a.perform.succeeds e) := by
  cases a with
  | init =>
      rw [perform, after_void, succeeds_void]
      exact init_follows hP h ha
  | addNeuron | addSynapse | deleteNeuron | deleteSynapse | updateSynapseWeight =>
      rcases Action.amends hP ha rfl with ⟨_, hsettings⟩ | ⟨step, hperform, hamends⟩
      · cases hsettings
      · rw [hperform]
        exact (hamends.rereads hP).void e read h
  | importGraph doc => exact (rereads_importGraph hP ha).void e read h
  | syncWeights => exact rereads_syncWeights hP e read h
  | compile | close | exportGraph | injectInput | tick | prepareTraining | trainTick | setTraining
  | attend => cases hrereads

/-- What an engine does on its network, its backend or its audience leaves the graph alone. -/
theorem Action.follows_of_not_rereads {a : Action α} (hP : IdClass P)
    (hrereads : a.rereads = false) : Respects (Kept (Follows P read)) a.perform := by
  have hcompile := compiling_undisturbed (α := α)
  have hrun := running_undisturbed (α := α)
  have hof : ∀ {β : Type} {step : Attempt (Engine α) β}, Respects Undisturbed step →
      Respects (Kept (Follows P read)) step := fun h e he => he.of_undisturbed (h e)
  have hsync := follows_syncIfTrained (α := α) hP read
  cases a with
  | compile => exact hof hcompile.compile.void
  | close => exact hof undisturbed_close
  | exportGraph => exact (hsync.bind fun _ => respects_get_bind fun e => refl e).void
  | injectInput values => exact hof (hrun.injectInput values)
  | tick inputs => exact hof (hrun.tick inputs).void
  | prepareTraining targets rate =>
      exact hof (hrun.prepareTraining targets (undisturbed_takeRate rate))
  | trainTick inputs targets deltas => exact hof (undisturbed_trainTick inputs targets deltas).void
  | setTraining settings =>
      have hretrain : Respects Undisturbed (retrain (α := α) settings) := by
        refine (respects_modify fun e => equipping_undisturbed.retrained e settings).bind
          fun _ => respects_get_bind fun e => ?_
        split
        · exact (hcompile.compile.bind fun _ => respects_pure _) e
        · exact refl e
      exact hsync.bind fun _ => hof hretrain
  | attend audience => exact hof (respects_modify fun e => running_undisturbed.audience e audience)
  | init | addNeuron | addSynapse | deleteNeuron | deleteSynapse | updateSynapseWeight
  | importGraph | syncWeights => cases hrereads

/-- Whether a deed reads the stores anew if it succeeds. -/
def Deed.rereads : Deed α → Bool
  | .act a => a.rereads
  | .openLoop _ => false

theorem Deed.follows_perform {d : Deed α} {e : Engine α} (hP : IdClass P)
    (hd : d.Admissible P e) (h : e.Follows P read) :
    (d.perform.after e).Follows P (read || (d.rereads && d.perform.succeeds e)) := by
  cases d with
  | openLoop rate =>
      rw [rereads, Bool.false_and, Bool.or_false]
      exact h.of_undisturbed (respects_openLoop (undisturbed_takeRate rate) e)
  | act a =>
      cases hrereads : a.rereads with
      | true =>
          rw [rereads, hrereads, Bool.true_and]
          exact a.follows_of_rereads hP hd hrereads h
      | false =>
          rw [rereads, hrereads, Bool.false_and, Bool.or_false]
          exact a.follows_of_not_rereads hP hrereads e h

namespace Engine

/--
What an engine on keyed stores, whatever these hold and on whatever backend, can come to from its
creation on, and whether something that reads the stores has succeeded on the way.
-/
inductive Handled (P : Value → Prop) : Bool → Engine α → Prop
  | created {host : Host} {settings : EngineSettings} {training : TrainingSettings}
      {ns : List Neuron} {ss : List Synapse} {backend : Option (Backend α)} {e : Engine α}
      (hns : ∀ n ∈ ns, P n.id) (hss : ∀ s ∈ ss, P s.id ∧ P s.source ∧ P s.target)
      (h : createOn host settings training ns ss backend = .ok e) : Handled P false e
  | done {read : Bool} {e : Engine α} (h : Handled P read e) (d : Deed α)
      (hd : d.Admissible P e) :
      Handled P (read || (d.rereads && d.perform.succeeds e)) (d.perform.after e)

theorem Handled.follows {e : Engine α} (hP : IdClass P) (h : e.Handled P read) :
    e.Follows P read := by
  induction h with
  | created hns hss h =>
      rcases bind_eq_ok h with ⟨neuronStore, hneurons, h⟩
      rcases bind_eq_ok h with ⟨synapseStore, hsynapses, h⟩
      rcases KeyedStore.filled_eq_ok hP hns hneurons with ⟨rfl, hns'⟩
      rcases KeyedStore.filled_eq_ok hP (fun s hs => (hss s hs).1) hsynapses with ⟨rfl, hss'⟩
      cases h
      exact ⟨_, _, ⟨rfl, rfl, hns', hss', fun s hs => (hss s hs).2⟩, Or.inr ⟨rfl, rfl, rfl⟩⟩
  | done h d hd ih => exact d.follows_perform hP hd ih

/-!
## Deleting a neuron
-/

/-- No synapse starts or ends at a neuron. -/
def Unattached (id : Value) (ss : List Synapse) : Prop := ∀ s ∈ ss, touches id s = false

theorem unattached_filter (id : Value) (ss : List Synapse) :
    Unattached id (ss.filter fun s => !touches id s) := by
  intro s hs
  have htouches := (List.mem_filter.mp hs).2
  rwa [Bool.not_eq_true'] at htouches

/-- What the deletion of a neuron leaves of a graph: all else, up to parameters. -/
structure Removal (id : Value) (ns : List Neuron) (ss : List Synapse) (ns' : List Neuron)
    (ss' : List Synapse) : Prop where
  gone : ∀ n ∈ ns', n.id.same id = false
  neurons : ns'.map Neuron.shape = (ns.filter fun n => !n.id.same id).map Neuron.shape
  synapses : (ss'.filter fun s => !touches id s).map Synapse.shape =
    (ss.filter fun s => !touches id s).map Synapse.shape

/--
A deletion that succeeds takes the neuron from the stores.  It takes all synapses at it too if
they are cached or if parameters have been written back, and none if nothing has been read yet.
-/
theorem stocked_deleteNeuron {e : Engine α} {id : Value} (h : e.Tracked IsText read ns ss)
    (hok : (deleteNeuron id).succeeds e = true) :
    ∃ ns₁ ss₁ ss', Revises ns ss ns₁ ss₁ ∧ (e.trained = false → ns₁ = ns ∧ ss₁ = ss) ∧
      ((deleteNeuron id).after e).Stocked IsText (ns₁.filter fun n => !n.id.same id) ss' ∧
      (ss' = (ss₁.filter fun s => !touches id s) ∧
          (e.trained = true ∨ Revises ns ss e.neurons e.synapses) ∨
        ss' = ss₁ ∧ e.trained = false ∧ read = false ∧ e.synapses = []) := by
  have hP := Value.idClass_isText
  rcases outcome_of_succeeds hok with ⟨p, hrun⟩
  have hremoved : ∀ {read : Bool} {ns : List Neuron} {ss : List Synapse} {t : Engine α},
      t.Tracked IsText read ns ss → (remove id).outcome t = (.ok p, (deleteNeuron id).after e) →
      ((deleteNeuron id).after e).Stocked IsText (ns.filter fun n => !n.id.same id)
        (detached id t.synapses ss) := by
    intro read ns ss t ht hremove
    rcases remove_cases hP ht id with ⟨f, hfails⟩ | ⟨_, _, hs, hrefresh⟩
    · rw [hfails] at hremove
      cases hremove
    · rw [← after_of_outcome hremove, after, hrefresh]
      exact (tracked_refreshAndCompile hs).stocked
  cases htrained : e.trained with
  | false =>
      rw [deleteNeuron_eq, outcome_bind_of_ok (outcome_syncIfTrained_of_untrained htrained)] at hrun
      have hstocked := hremoved h hrun
      refine ⟨ns, ss, _, .refl ns ss, fun _ => ⟨rfl, rfl⟩, hstocked, ?_⟩
      rcases h.cached with hcached | ⟨hread, -, hnone⟩
      · exact Or.inl ⟨detached_of_cached h.stocked.synapses id hcached.synapses, Or.inr hcached⟩
      · exact Or.inr ⟨by rw [hnone, detached_nil], rfl, hread, hnone⟩
  | true =>
      rw [deleteNeuron_eq] at hrun
      rcases outcome_bind_eq_ok hrun with ⟨_, t, hsync, hremove⟩
      rw [syncIfTrained_of_trained htrained] at hsync
      rcases saves_syncWeights hP h with ⟨ns₁, ss₁, hrevises, -, htracked⟩
      have ht := htracked (succeeds_of_ok (congrArg Prod.fst hsync))
      rw [after_of_outcome hsync] at ht
      have hstocked := hremoved ht hremove
      have hcached : Revises ns₁ ss₁ t.neurons t.synapses := by
        rcases ht.cached with hcached | ⟨hread, -⟩
        · exact hcached
        · cases hread
      rw [detached_of_cached ht.stocked.synapses id hcached.synapses] at hstocked
      exact ⟨ns₁, ss₁, _, hrevises, fun hfalse => absurd hfalse (by decide), hstocked,
        Or.inl ⟨rfl, Or.inl rfl⟩⟩

/--
Whatever has been done with an engine since its creation, a deletion that succeeds takes the
neuron from the stores and leaves all other neurons and the synapses that are not attached to it,
with their parameters unless trained ones are written back.  A synapse at the neuron is left
exactly if nothing is marked as trained and no synapse is cached, and so never once something
that reads the stores has succeeded.
-/
theorem deletion_leaves_none_attached_iff {e : Engine α} {id : Value}
    (h : e.Handled IsText read) (hok : (deleteNeuron id).succeeds e = true) :
    ∃ ns ss ns' ss', e.neuronStore.getAll = .ok ns ∧ e.synapseStore.getAll = .ok ss ∧
      ((deleteNeuron id).after e).neuronStore.getAll = .ok ns' ∧
      ((deleteNeuron id).after e).synapseStore.getAll = .ok ss' ∧
      Removal id ns ss ns' ss' ∧
      (e.trained = false → ns' = (ns.filter fun n => !n.id.same id) ∧
        (ss'.filter fun s => !touches id s) = ss.filter fun s => !touches id s) ∧
      (Unattached id ss' ↔ e.trained = true ∨ e.synapses ≠ [] ∨ Unattached id ss) ∧
      (read = true → Unattached id ss') := by
  rcases h.follows Value.idClass_isText with ⟨ns, ss, htracked⟩
  rcases stocked_deleteNeuron htracked hok with
    ⟨ns₁, ss₁, ss', hrevises, hexact, hstocked, hsynapses⟩
  have hkept : (ss'.filter fun s => !touches id s) = ss₁.filter fun s => !touches id s := by
    rcases hsynapses with ⟨rfl, -⟩ | ⟨rfl, -⟩
    · rw [List.filter_filter]
      simp only [Bool.and_self]
    · rfl
  refine ⟨ns, ss, _, ss', htracked.stocked.getAll.1, htracked.stocked.getAll.2,
    hstocked.getAll.1, hstocked.getAll.2, ⟨?_, ?_, ?_⟩, ?_, ?_, ?_⟩
  · intro n hn
    have hsame := (List.mem_filter.mp hn).2
    rwa [Bool.not_eq_true'] at hsame
  · exact map_filter_of_shape (fun _ => rfl) hrevises.neurons
  · rw [hkept]
    exact map_filter_of_shape (fun _ => rfl) hrevises.synapses
  · intro htrained
    rcases hexact htrained with ⟨rfl, rfl⟩
    exact ⟨rfl, hkept⟩
  · rcases hsynapses with ⟨rfl, hseen⟩ | ⟨rfl, htrained, -, hnone⟩
    · refine ⟨fun _ => ?_, fun _ => unattached_filter id ss₁⟩
      rcases hseen with htrained | hcached
      · exact Or.inl htrained
      · by_cases hempty : e.synapses = []
        · have hss : ss = [] := by
            have hlength := hcached.synapses
            rw [hempty] at hlength
            exact List.map_eq_nil_iff.mp hlength.symm
          rw [hss]
          exact Or.inr (Or.inr fun s hs => absurd hs List.not_mem_nil)
        · exact Or.inr (Or.inl hempty)
    · rcases hexact htrained with ⟨-, rfl⟩
      rw [htrained, hnone]
      simp
  · intro hread
    rcases hsynapses with ⟨rfl, -⟩ | ⟨-, -, hunread, -⟩
    · exact unattached_filter id ss₁
    · rw [hread] at hunread
      cases hunread

theorem createOn_linked : createOn {} .trainable .default endpoints [link] none = .ok linked := rfl

theorem handled_linked : linked.Handled IsText false := by
  refine .created ?_ ?_ createOn_linked
  · simp [endpoints, IsText]
  · simp [link, IsText]

/-- Once the engine is initialised, the synapse goes with the neuron that it starts from. -/
theorem deletion_leaves_none_attached_iff_linked :
    (deleteNeuron (.text "a")).succeeds (init.after linked) = true ∧
      ∃ ss', ((deleteNeuron (.text "a")).after (init.after linked)).synapseStore.getAll = .ok ss' ∧
        Unattached (.text "a") ss' := by
  have hinit : (init : Attempt (Engine Float32) Projection).succeeds linked = true := by
    decide +kernel
  have hdone := handled_linked.done (.act .init) rfl
  have hread : (false || ((Deed.act .init : Deed Float32).rereads &&
      (Deed.act .init).perform.succeeds linked)) = true := by
    rw [Deed.perform, Action.perform, succeeds_void, hinit]
    rfl
  have hok : (deleteNeuron (.text "a")).succeeds ((Deed.act .init).perform.after linked) =
      true := by
    decide +kernel
  rcases deletion_leaves_none_attached_iff hdone hok with
    ⟨ns, ss, ns', ss', -, -, -, hss', -, -, -, hnone⟩
  rw [Deed.perform, Action.perform, after_void] at hok hss'
  exact ⟨hok, ss', hss', hnone hread⟩

/-- Before the stores have been read, the synapse stays when its neuron is deleted. -/
theorem deletion_leaves_attached_unread :
    ¬∀ (e : Engine Float32) (id : Value) (ss : List Synapse), e.Handled IsText false →
      (deleteNeuron id).succeeds e = true →
      ((deleteNeuron id).after e).synapseStore.getAll = .ok ss → Unattached id ss := by
  intro h
  have hok : (deleteNeuron (.text "a")).succeeds linked = true := by decide +kernel
  have hleft : ((deleteNeuron (.text "a")).after linked).synapseStore.getAll = .ok [link] := by
    rfl
  have hnone := h linked (.text "a") [link] handled_linked hok hleft link List.mem_cons_self
  have htouches : touches (.text "a") link = true := by simp [touches, link]
  rw [htouches] at hnone
  cases hnone

end Engine
end Plexus
