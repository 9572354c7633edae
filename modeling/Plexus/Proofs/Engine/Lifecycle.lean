import Plexus.Proofs.Engine.Moves
import Plexus.Proofs.Engine.Mutation

/-!
# Replacing the graph of an engine

Importing a document and initialising an engine write many entries into the stores.  Both end
with the stores being read anew, and so in a coherent engine, even if an entry is refused on
the way.
-/

namespace Plexus
namespace Engine

open Attempt
open Value (IdClass)

variable {α β : Type} {P : Value → Prop}

/-!
## Importing
-/

theorem stored_createNeuron {n : Neuron} (hP : IdClass P) (hn : P n.id) :
    Respects (Kept (Stored P)) (onNeurons (α := α) (Store.create n)) := by
  intro e h
  rcases h with ⟨ns, ss, hs⟩
  rcases outcome_createNeuron_cases hP hs hn with ⟨f, hrun⟩ | ⟨neuronStore, hs', hrun⟩
  · rw [after_of_outcome hrun]
    exact ⟨ns, ss, hs⟩
  · rw [after_of_outcome hrun]
    exact ⟨_, ss, hs'⟩

theorem stored_createSynapse {s : Synapse} (hP : IdClass P) (hid : P s.id)
    (hends : P s.source ∧ P s.target) :
    Respects (Kept (Stored P)) (onSynapses (α := α) (Store.create s)) := by
  intro e h
  rcases h with ⟨ns, ss, hs⟩
  rcases outcome_createSynapse_cases hP hs hid hends with ⟨f, hrun⟩ | ⟨synapseStore, hs', hrun⟩
  · rw [after_of_outcome hrun]
    exact ⟨ns, ss, hs⟩
  · rw [after_of_outcome hrun]
    exact ⟨ns, _, hs'⟩

/-- Both stores are cleared before anything is put into them. -/
theorem outcome_replaceStored_clear (ns : List Neuron) (ss : List Synapse) (e : Engine α) :
    (replaceStored ns ss).outcome e =
      (ns.forM (fun n => onNeurons (Store.create n)) >>= fun _ =>
        ss.forM fun s => onSynapses (Store.create s)).outcome { e with
          synapseStore := e.synapseStore.cleared, neuronStore := e.neuronStore.cleared } := by
  have hsynapses : (onSynapses Store.clear : Attempt (Engine α) Unit).outcome e =
      (.ok (), { e with synapseStore := e.synapseStore.cleared }) :=
    outcome_onSynapses rfl rfl
  have hneurons : (onNeurons Store.clear : Attempt (Engine α) Unit).outcome
      { e with synapseStore := e.synapseStore.cleared } =
        (.ok (), { e with
          synapseStore := e.synapseStore.cleared, neuronStore := e.neuronStore.cleared }) :=
    outcome_onNeurons rfl rfl
  rw [replaceStored, outcome_bind_of_ok hsynapses, outcome_bind_of_ok hneurons]

theorem outcome_replaceStored {ns₀ ns : List Neuron} {ss₀ ss : List Synapse} {e : Engine α}
    (hs : e.Stocked P ns₀ ss₀) :
    (replaceStored ns ss).outcome e =
      (ns.forM (fun n => onNeurons (Store.create n)) >>= fun _ =>
        ss.forM fun s => onSynapses (Store.create s)).outcome
        { e with synapseStore := .keyed .empty, neuronStore := .keyed .empty } := by
  rw [outcome_replaceStored_clear, hs.neuronStore, hs.synapseStore]
  rfl

theorem stored_replaceStored {ns : List Neuron} {ss : List Synapse} (hP : IdClass P)
    (hns : ∀ n ∈ ns, P n.id) (hss : ∀ s ∈ ss, P s.id ∧ P s.source ∧ P s.target) :
    Respects (Kept (Stored P)) (replaceStored (α := α) ns ss) := by
  intro e h
  rcases h with ⟨ns₀, ss₀, hs⟩
  have hcreate : Respects (Kept (Stored P)) (ns.forM (fun n => onNeurons (Store.create n)) >>=
      fun _ => ss.forM fun s => onSynapses (α := α) (Store.create s)) :=
    (Respects.forM fun n hn => stored_createNeuron hP (hns n hn)).bind fun _ =>
      Respects.forM fun s hs => stored_createSynapse hP (hss s hs).1 (hss s hs).2
  rw [after, outcome_replaceStored hs]
  exact hcreate _ ⟨[], [], rfl, rfl, .nil, .nil, by simp⟩

theorem editing_equipped : Editing (Kept (Equipped (α := α))) where
  graph _ _ _ _ _ _ _ h := ⟨h.backend, h.rate⟩

theorem outcome_forM_onNeurons (f : Neuron → Attempt (Store Neuron) PUnit) (ns : List Neuron)
    (e : Engine α) :
    (ns.forM fun n => onNeurons (f n)).outcome e = (onNeurons (ns.forM f)).outcome e := by
  apply outcome_forM_onPart
  · intro t e
    rfl
  · intro t u e
    rfl
  · intro e
    rfl

theorem outcome_forM_onSynapses (f : Synapse → Attempt (Store Synapse) PUnit) (ss : List Synapse)
    (e : Engine α) :
    (ss.forM fun s => onSynapses (f s)).outcome e = (onSynapses (ss.forM f)).outcome e := by
  apply outcome_forM_onPart
  · intro t e
    rfl
  · intro t u e
    rfl
  · intro e
    rfl

/-- Entries that can be kept together are all stored. -/
theorem outcome_replaceStored_of_distinct {ns₀ ns : List Neuron} {ss₀ ss : List Synapse}
    {e : Engine α} (hP : IdClass P) (hs : e.Stocked P ns₀ ss₀) (hns : Distinct P ns)
    (hss : Distinct P ss) :
    (replaceStored ns ss).outcome e =
      (.ok (), { e with
        neuronStore := .keyed (.ofList ns), synapseStore := .keyed (.ofList ss) }) := by
  have hneurons : (ns.forM fun n => onNeurons (Store.create n)).outcome
      { e with synapseStore := .keyed .empty, neuronStore := .keyed .empty } =
        (.ok (), { e with
          synapseStore := .keyed .empty, neuronStore := .keyed (.ofList ns) }) := by
    rw [outcome_forM_onNeurons]
    exact outcome_onNeurons rfl (Store.outcome_forM_create hP hns)
  have hsynapses : (ss.forM fun s => onSynapses (Store.create s)).outcome
      { e with synapseStore := .keyed .empty, neuronStore := .keyed (.ofList ns) } =
        (.ok (), { e with
          synapseStore := .keyed (.ofList ss), neuronStore := .keyed (.ofList ns) }) := by
    rw [outcome_forM_onSynapses]
    exact outcome_onSynapses rfl (Store.outcome_forM_create hP hss)
  rw [outcome_replaceStored hs]
  exact (outcome_bind_of_ok hneurons _).trans hsynapses

/-!
## Initialising
-/

/-- Whether an engine runs on a dense backend, or will choose one. -/
def onDense (e : Engine α) : Bool :=
  match e.backend with
  | some b => b.settings.isSome
  | none =>
      match Backend.select (α := α) e.host e.settings e.training (Capabilities.probe e.host) with
      | .ok b => b.settings.isSome
      | .error _ => false

/-- Whether the synapse of a default network would get an identifier that is not taken. -/
def seedIsFresh (e : Engine α) : Bool :=
  match e.neuronStore.getAll, e.synapseStore.getAll with
  | .ok [], .ok ss =>
      !e.settings.seedDefaultNetwork.truth ||
        ss.all fun s => !s.id.same (.text (freshId (e.issued + 3)))
  | _, _ => true

theorem dense_of_settings {b : Backend α} (h : b.settings.isSome = true) :
    ∃ settings held, b.machine = .dense settings held := by
  unfold Backend.settings at h
  cases hmachine : b.machine with
  | dense settings held => exact ⟨settings, held, rfl⟩
  | graph claims built =>
      rw [hmachine] at h
      cases h

theorem outcome_acquireBackend {e : Engine α} (h : e.onDense = true) :
    ∃ b settings held, acquireBackend.outcome e = (.ok (), { e with backend := some b }) ∧
      b.machine = .dense settings held := by
  unfold onDense at h
  cases hb : e.backend with
  | some b =>
      rw [hb] at h
      rcases dense_of_settings h with ⟨settings, held, hmachine⟩
      refine ⟨b, settings, held, ?_, hmachine⟩
      simp only [acquireBackend, outcome_get_bind, hb, Option.isNone_some, Bool.false_eq_true,
        if_false, outcome_pure]
      rw [← hb]
  | none =>
      rw [hb] at h
      cases hselect : Backend.select (α := α) e.host e.settings e.training
          (Capabilities.probe e.host) with
      | error f =>
          rw [hselect] at h
          cases h
      | ok b =>
          rw [hselect] at h
          rcases dense_of_settings h with ⟨settings, held, hmachine⟩
          refine ⟨b, settings, held, ?_, hmachine⟩
          simp only [acquireBackend, outcome_get_bind, hb, Option.isNone_none, if_true, hselect,
            outcome_of_ok_bind, outcome_set]

/-- A backend that has its device takes over the settings. -/
theorem outcome_equip_of_ready {b : Backend α} {e : Engine α}
    (hacquire : acquireBackend.outcome e = (.ok (), { e with backend := some b }))
    (h : (b.configure e.training).Equipped e.training) :
    equip.outcome e = (.ok (), { e with backend := some (b.configure e.training) }) := by
  have hready : hasReadyBackend { e with backend := some (b.configure e.training) } = true := by
    simp only [hasReadyBackend, bne_iff_ne, ne_eq]
    intro hstage
    have hle := h.ready
    rw [hstage] at hle
    exact absurd hle (by decide)
  rw [equip, outcome_bind_of_ok hacquire, outcome_modify_bind, outcome_get_bind]
  have hmodify : updateBackend (Backend.configure e.training) { e with backend := some b } =
      { e with backend := some (b.configure e.training) } := rfl
  rw [hmodify, hready]
  rfl

/-- A backend is set up, or its device is refused. -/
theorem equip_cases {e : Engine α} (h : e.onDense = true) :
    (∃ f e', equip.outcome e = (.error f, e')) ∨
      ∃ b, equip.outcome e = (.ok (), { e with backend := some b }) ∧ b.Equipped e.training := by
  rcases outcome_acquireBackend h with ⟨b, settings, held, hacquire, hmachine⟩
  have hconfigured : (b.configure e.training).machine = .dense e.training held := by
    rw [Backend.configure, hmachine]
  by_cases hstage : (b.configure e.training).stage = .uninitialized
  · have hready : hasReadyBackend { e with backend := some (b.configure e.training) } = false := by
      simp only [hasReadyBackend, hstage, bne_self_eq_false]
    have hmodify : updateBackend (Backend.configure e.training) { e with backend := some b } =
        { e with backend := some (b.configure e.training) } := rfl
    rw [equip, outcome_bind_of_ok hacquire, outcome_modify_bind, outcome_get_bind, hmodify,
      hready, Bool.not_false, if_pos rfl, outcome_onBackend rfl]
    rcases Backend.init_cases hconfigured with ⟨f, hf⟩ | ⟨b', hb', hequipped⟩
    · rw [hf]
      exact Or.inl ⟨f, _, rfl⟩
    · rw [hb']
      exact Or.inr ⟨b', rfl, hequipped⟩
  · have hequipped : (b.configure e.training).Equipped e.training := by
      refine ⟨⟨held, hconfigured⟩, ?_⟩
      cases hs : (b.configure e.training).stage with
      | uninitialized => exact absurd hs hstage
      | ready | compiled | trainable => decide
    exact Or.inr ⟨_, outcome_equip_of_ready hacquire hequipped, hequipped⟩

/-- A backend that is set up stays so. -/
theorem equip_of_equipped {e : Engine α} (h : e.Equipped) :
    ∃ b, equip.outcome e = (.ok (), { e with backend := some b }) ∧ b.Equipped e.training := by
  rcases h.backend with ⟨b, hb, hequipped⟩
  have hacquire : acquireBackend.outcome e = (.ok (), { e with backend := some b }) := by
    simp only [acquireBackend, outcome_get_bind, hb, Option.isNone_some, Bool.false_eq_true,
      if_false, outcome_pure]
    rw [← hb]
  exact ⟨_, outcome_equip_of_ready hacquire hequipped.configure, hequipped.configure⟩

theorem outcome_issueId (e : Engine α) :
    issueId.outcome e = (.ok (freshId (e.issued + 1)), { e with issued := e.issued + 1 }) := rfl

theorem seed_ids_apart (s t : String) :
    (Value.text ("n1-" ++ s)).same (.text ("n2-" ++ t)) = false := by
  rw [Value.same_text_text, beq_eq_false_iff_ne, ne_eq, String.ext_iff]
  simp

/-- The default network has two neurons and the synapse between them. -/
theorem outcome_seedDefaultNetwork {ss : List Synapse} {e : Engine α} (hP : IdClass P)
    (hs : e.Stocked P [] ss)
    (hfresh : ∀ s ∈ ss, s.id.same (.text (freshId (e.issued + 3))) = false) :
    ∃ ns' ss' k, (seedDefaultNetwork : Attempt (Engine α) Unit).outcome e =
      (.ok (), { e with
        neuronStore := .keyed (.ofList ns'), synapseStore := .keyed (.ofList ss'), issued := k }) ∧
      Distinct P ns' ∧ Distinct P ss' ∧ ∀ s ∈ ss', P s.source ∧ P s.target := by
  let first : Neuron :=
    ⟨.text ("n1-" ++ freshId (e.issued + 1)), .input, 0.0, Neuron.defaultActivation⟩
  let second : Neuron :=
    ⟨.text ("n2-" ++ freshId (e.issued + 2)), .output, 0.5, Neuron.defaultActivation⟩
  let synapse : Synapse := ⟨.text (freshId (e.issued + 3)), first.id, second.id, 0.8⟩
  have hnone : ∀ d ∈ ([] : List Neuron), (Identified.id d).same (Identified.id first) = false := by
    intro d hd
    cases hd
  have hfirst : ∀ d ∈ [first], (Identified.id d).same (Identified.id second) = false := by
    intro d hd
    rw [List.mem_singleton.mp hd]
    exact seed_ids_apart _ _
  have hstep₁ := outcome_onNeurons (e := { e with issued := e.issued + 2 }) hs.neuronStore
    (Store.outcome_create_of_new (Value.isKey_text _) hnone)
  have hstep₂ := outcome_onNeurons
    (e := { e with issued := e.issued + 2, neuronStore := .keyed (.ofList [first]) }) rfl
    (Store.outcome_create_of_new (Value.isKey_text _) hfirst)
  have hstep₃ := outcome_onSynapses
    (e := { e with
      issued := e.issued + 3, neuronStore := .keyed (.ofList ([first] ++ [second])) })
    hs.synapseStore (Store.outcome_create_of_new (e := synapse) (Value.isKey_text _) hfresh)
  refine ⟨[first] ++ [second], ss ++ [synapse], e.issued + 3, ?_, ?_, ?_, ?_⟩
  · refine (outcome_bind_of_ok (outcome_issueId e) _).trans ?_
    refine (outcome_bind_of_ok (outcome_issueId _) _).trans ?_
    refine (outcome_bind_of_ok hstep₁ _).trans ?_
    refine (outcome_bind_of_ok hstep₂ _).trans ?_
    exact (outcome_bind_of_ok (outcome_issueId _) _).trans hstep₃
  · exact (hs.neurons.snoc (hP.text _) hnone).snoc (hP.text _) hfirst
  · exact hs.synapses.snoc (hP.text _) hfresh
  · intro s hs'
    rcases List.mem_append.mp hs' with hs' | hs'
    · exact hs.ends s hs'
    · rw [List.mem_singleton.mp hs']
      exact ⟨hP.text _, hP.text _⟩

theorem fresh_of_seedIsFresh {ss : List Synapse} {e : Engine α} (hs : e.Stocked P [] ss)
    (hseed : e.settings.seedDefaultNetwork.truth = true) (h : e.seedIsFresh = true) :
    ∀ s ∈ ss, s.id.same (.text (freshId (e.issued + 3))) = false := by
  simp only [seedIsFresh, hs.neuronStore, hs.synapseStore, Store.getAll, KeyedStore.toList_ofList,
    hseed, Bool.not_true, Bool.false_or, List.all_eq_true, Bool.not_eq_true'] at h
  exact h

theorem stocked_withCache {ns : List Neuron} {ss : List Synapse} {e : Engine α}
    (h : e.Stocked P ns ss) :
    (e.withCache ns ss).Stocked P ns ss :=
  ⟨h.neuronStore, h.synapseStore, h.neurons, h.synapses, h.ends⟩

/-- Reading the stores makes the cache what they hold. -/
theorem outcome_readGraph {ns : List Neuron} {ss : List Synapse} {e : Engine α} (hP : IdClass P)
    (hs : e.Stocked P ns ss) (hfresh : e.seedIsFresh = true) :
    ∃ e', readGraph.outcome e = (.ok (), e') ∧ e'.Stocked P e'.neurons e'.synapses ∧
      e'.training = e.training := by
  have hcached := stocked_withCache hs
  rw [readGraph, outcome_bind_of_ok (outcome_refresh hs), outcome_get_bind]
  cases hseed : (e.withCache ns ss).neurons.isEmpty &&
      (e.withCache ns ss).settings.seedDefaultNetwork.truth with
  | false =>
      rw [if_neg Bool.false_ne_true]
      exact ⟨_, rfl, hcached, rfl⟩
  | true =>
      rcases Bool.and_eq_true_iff.mp hseed with ⟨hempty, htruth⟩
      have hns : ns = [] := List.isEmpty_iff.mp hempty
      rw [hns] at hs hcached
      rcases outcome_seedDefaultNetwork hP hcached (fresh_of_seedIsFresh hcached htruth hfresh) with
        ⟨ns', ss', k, hrun, hns', hss', hends⟩
      have hstocked : Stocked P ns' ss' { e.withCache [] ss with
          neuronStore := .keyed (.ofList ns'), synapseStore := .keyed (.ofList ss')
          issued := k } := ⟨rfl, rfl, hns', hss', hends⟩
      rw [if_pos rfl, hns, outcome_bind_of_ok hrun, outcome_refresh hstocked]
      exact ⟨_, rfl, stocked_withCache hstocked, rfl⟩

variable [Scalar α]

/-- A document whose identifiers belong to a class, as far as it can be read. -/
def Named (P : Value → Prop) (doc : Value) : Prop :=
  ∀ ns ss, Document.parse doc = .ok (ns, ss) →
    (∀ n ∈ ns, P n.id) ∧ ∀ s ∈ ss, P s.id ∧ P s.source ∧ P s.target

theorem importGraph_edits {doc : Value} {e : Engine α} (hP : IdClass P) (h : e.Coherent P)
    (hdoc : Named P doc) :
    Edits P (fun _ _ => True) (importGraph doc) e := by
  cases hparse : Document.parse doc with
  | error f =>
      apply Or.inl
      refine ⟨f, ?_⟩
      rw [importGraph, hparse, outcome_of_error_bind]
  | ok parsed =>
      have hnamed := hdoc parsed.1 parsed.2 hparse
      have hequipped := editing_equipped.replaceStored parsed.1 parsed.2 e h.equipped
      rcases stored_replaceStored hP hnamed.1 hnamed.2 e ⟨_, _, h.stocked⟩ with ⟨ns, ss, hs⟩
      rcases refreshAndCompile_rebuilds hP hs hequipped with ⟨r, e', hrun, hrebuilt, hok⟩
      cases hstored : (replaceStored parsed.1 parsed.2 : Attempt (Engine α) Unit).outcome e with
      | mk r' t =>
          rw [after_of_outcome hstored] at hrun
          cases r' with
          | ok _ =>
              refine Or.inr ⟨r, e', ns, ss, _, ?_, trivial, hrebuilt, ?_⟩
              · rw [importGraph, hparse, outcome_of_ok_bind]
                exact (outcome_bind_of_ok (outcome_onFault_of_ok hstored _) _).trans hrun
              · intro hr _
                rcases hr with ⟨p, hp⟩
                exact hok p hp
          | error f =>
              rcases outcome_onFault_of_error hstored
                (refreshAndCompile >>= fun _ => pure ()) with ⟨f', hfault⟩
              have hafter : (refreshAndCompile >>= fun _ => pure () :
                  Attempt (Engine α) Unit).after t = e' := by
                rw [after, outcome_bind, hrun]
                cases r <;> rfl
              rw [hafter] at hfault
              refine Or.inr ⟨.error f', e', ns, ss, _, ?_, trivial, hrebuilt, ?_⟩
              · rw [importGraph, hparse, outcome_of_ok_bind]
                exact outcome_bind_of_error hfault _
              · intro hr _
                rcases hr with ⟨p, hp⟩
                cases hp

/-- A graph that can be kept and that there is room for is imported as it is. -/
theorem importGraph_of_hasRoom {doc : Value} {ns : List Neuron} {ss : List Synapse} {rows : Nat}
    {codes : List Activation} {e : Engine α} (hP : IdClass P) (h : e.Coherent P)
    (hparse : Document.parse doc = .ok (ns, ss)) (hns : Distinct P ns) (hss : Distinct P ss)
    (hends : ∀ s ∈ ss, P s.source ∧ P s.target)
    (hbatch : e.training.microBatchSize = .whole rows)
    (hroom : Machine.hasRoom e.memory ns.length rows = true)
    (hcodes : (ns.map Neuron.activation).mapM Activation.ofValue = .ok codes) :
    ∃ p e', (importGraph doc).outcome e = (.ok p, e') ∧ e'.Rebuilt P ns ss e.training ∧
      e'.compiled.isSome = true := by
  have hstored := outcome_replaceStored_of_distinct hP h.stocked hns hss
  have hs : Stocked P ns ss { e with
      neuronStore := .keyed (.ofList ns), synapseStore := .keyed (.ofList ss) } :=
    ⟨rfl, rfl, hns, hss, hends⟩
  have he : Equipped { e with
      neuronStore := .keyed (.ofList ns), synapseStore := .keyed (.ofList ss) } :=
    ⟨h.equipped.backend, h.equipped.rate⟩
  rcases outcome_of_succeeds (refreshAndCompile_succeeds hP hs he hbatch hroom hcodes) with
    ⟨p, hrefresh⟩
  rcases refreshAndCompile_rebuilds hP hs he with ⟨r, e', hrun, hrebuilt, hok⟩
  rw [hrefresh] at hrun
  cases hrun
  refine ⟨p, _, ?_, hrebuilt, hok p rfl⟩
  rw [importGraph, hparse, outcome_of_ok_bind]
  exact (outcome_bind_of_ok (outcome_onFault_of_ok hstored _) _).trans hrefresh

/-- Once the backend is set up, initialising compiles what the stores hold. -/
theorem init_of_equip {b : Backend α} {ns : List Neuron} {ss : List Synapse} {e : Engine α}
    (hP : IdClass P) (hequip : equip.outcome e = (.ok (), { e with backend := some b }))
    (hb : b.Equipped e.training) (hs : e.Stocked P ns ss)
    (hrate : e.targets.isSome = true → ∃ x, e.rate.toFloat = .ok x)
    (hfresh : e.seedIsFresh = true) :
    ∃ r e' ns' ss', init.outcome e = (r, e') ∧ e'.Rebuilt P ns' ss' e.training ∧
      ((∃ p, r = .ok p) → e'.compiled.isSome = true) := by
  rcases outcome_readGraph (e := { e with backend := some b }) hP (hs.of_stores rfl rfl)
    hfresh with
    ⟨e₁, hread, hs₁, htraining⟩
  have he₁ := editing_equipped.readGraph { e with backend := some b } ⟨⟨b, rfl, hb⟩, hrate⟩
  rw [after_of_outcome hread] at he₁
  rcases compile_rebuilds hP hs₁ he₁ with ⟨r, e', hrun, hrebuilt, hok⟩
  rw [htraining] at hrebuilt
  rw [init, outcome_bind_of_ok hequip, outcome_bind_of_ok hread]
  cases r with
  | error f =>
      rw [outcome_bind_of_error hrun]
      refine ⟨.error f, e', _, _, rfl, hrebuilt, ?_⟩
      intro hr
      rcases hr with ⟨p, hp⟩
      cases hp
  | ok c =>
      rw [outcome_bind_of_ok hrun]
      refine ⟨_, e', _, _, outcome_projection hP hrebuilt.coherent.stocked, hrebuilt, ?_⟩
      intro _
      rw [hok c rfl]
      rfl

theorem init_edits {e : Engine α} (hP : IdClass P) (h : e.Coherent P)
    (hfresh : e.seedIsFresh = true) :
    Edits P (fun _ _ => True) init e := by
  rcases equip_of_equipped h.equipped with ⟨b, hequip, hb⟩
  rcases init_of_equip hP hequip hb h.stocked h.equipped.rate hfresh with
    ⟨r, e', ns, ss, hrun, hrebuilt, hok⟩
  exact Or.inr ⟨r, e', ns, ss, _, hrun, trivial, hrebuilt, fun hr _ => hok hr⟩

end Engine
end Plexus
