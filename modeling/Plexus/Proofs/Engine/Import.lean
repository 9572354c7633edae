import Plexus.Proofs.Engine.Initialised
import Plexus.Proofs.Engine.Tracking
import Plexus.Proofs.Store.Table

/-!
# What importing a document leaves

Importing a document replaces the graph in the stores entry by entry, and is not undone if an
entry is refused on the way.  But the stores then hold the entries before that one, and the cache
and the compiled graph follow them, just as they do after an import that succeeds.  Where the
backend has room for the graph, the fault of the entry is the one that is seen.
-/

namespace Plexus

open Attempt
open Value (IsText)

/-!
## Graphs that are handed out as they were given
-/

theorem map_eq_of_forall₂ {β γ : Type} {R : β → β → Prop} {f : β → γ} {bs cs : List β}
    (hR : ∀ b c, R b c → f c = f b) (h : List.Forall₂ R bs cs) : cs.map f = bs.map f := by
  induction h with
  | nil => rfl
  | cons hbc _ ih => rw [List.map_cons, List.map_cons, hR _ _ hbc, ih]

/-- A store that hands out entries as they were given hands out a graph that can be compiled. -/
theorem nameable_of_alike {ns ms : List Neuron} {ss ts : List Synapse}
    (hns : List.Forall₂ Neuron.Alike ns ms) (hss : List.Forall₂ Synapse.Alike ss ts) :
    Compiled.nameable ms ts = Compiled.nameable ns ss := by
  have hids := map_eq_of_forall₂ (f := fun n : Neuron => n.id.isScalar)
    (fun _ _ h => by rw [h.id]) hns
  have hends := map_eq_of_forall₂
    (f := fun s : Synapse => s.source.isScalar && s.target.isScalar)
    (fun _ _ h => by rw [h.source, h.target]) hss
  have hall : ∀ {β : Type} (f : β → Bool) (bs : List β), bs.all f = (bs.map f).all id :=
    fun f bs => by rw [List.all_map]; rfl
  rw [Compiled.nameable, Compiled.nameable, hall, hids, ← hall, hall (fun s : Synapse => _), hends,
    ← hall]

namespace Engine

variable {α : Type}

/-- A document whose parameters are numbers, as far as it can be read. -/
def Numbered (doc : Value) : Prop :=
  ∀ ns ss, Document.parse doc = .ok (ns, ss) →
    (∀ n ∈ ns, n.bias.isNaN = false) ∧ ∀ s ∈ ss, s.weight.isNaN = false

theorem named_of_parse {doc : Value} {ns : List Neuron} {ss : List Synapse}
    {P : Value → Prop} (hparse : Document.parse doc = .ok (ns, ss)) (hns : ∀ n ∈ ns, P n.id)
    (hss : ∀ s ∈ ss, P s.id ∧ P s.source ∧ P s.target) : Named P doc := by
  intro ns' ss' hparse'
  rw [hparse] at hparse'
  cases hparse'
  exact ⟨hns, hss⟩

theorem numbered_of_parse {doc : Value} {ns : List Neuron} {ss : List Synapse}
    (hparse : Document.parse doc = .ok (ns, ss)) (hns : ∀ n ∈ ns, n.bias.isNaN = false)
    (hss : ∀ s ∈ ss, s.weight.isNaN = false) : Numbered doc := by
  intro ns' ss' hparse'
  rw [hparse] at hparse'
  cases hparse'
  exact ⟨hns, hss⟩

/--
How far a graph has been put into the stores of an engine: all of it, or what comes before an
entry that its store refuses.
-/
inductive Inserted (ns : List Neuron) (ss : List Synapse) (e : Engine α) :
    List Neuron → List Synapse → Except Fault Unit → Prop
  | all : Inserted ns ss e ns ss (.ok ())
  | neuron {before after : List Neuron} {n : Neuron} {f : Fault} (hns : ns = before ++ n :: after)
      (h : e.neuronStore.created n = .error f) : Inserted ns ss e before [] (.error f)
  | synapse {before after : List Synapse} {s : Synapse} {f : Fault}
      (hss : ss = before ++ s :: after) (h : e.synapseStore.created s = .error f) :
      Inserted ns ss e ns before (.error f)

/--
The stores of an engine hold a graph, the cache is what the stores hold, and nothing is compiled
but that.
-/
structure InStep [Scalar α] (ns : List Neuron) (ss : List Synapse) (e : Engine α) : Prop where
  storedNeurons : e.neuronStore.getAll = .ok e.neurons
  storedSynapses : e.synapseStore.getAll = .ok e.synapses
  neurons : List.Forall₂ Neuron.Alike ns e.neurons
  synapses : List.Forall₂ Synapse.Alike ss e.synapses
  compiled : ∀ c, e.compiled = some c → c = Compiled.flatten e.neurons e.synapses

theorem Inserted.of_stores {ns ns' : List Neuron} {ss ss' : List Synapse} {r : Except Fault Unit}
    {e e' : Engine α} (h : Inserted ns ss e ns' ss' r) (hn : e'.neuronStore = e.neuronStore)
    (hs : e'.synapseStore = e.synapseStore) : Inserted ns ss e' ns' ss' r := by
  cases h with
  | all => exact .all
  | neuron hns hrefused => exact .neuron hns (hn ▸ hrefused)
  | synapse hss hrefused => exact .synapse hss (hs ▸ hrefused)

theorem Inserted.subset {ns ns' : List Neuron} {ss ss' : List Synapse} {r : Except Fault Unit}
    {e : Engine α} (h : Inserted ns ss e ns' ss' r) : ns' ⊆ ns ∧ ss' ⊆ ss := by
  cases h with
  | all => exact ⟨fun _ hn => hn, fun _ hs => hs⟩
  | neuron hns _ => exact ⟨hns ▸ List.subset_append_left _ _, List.nil_subset _⟩
  | synapse hss _ => exact ⟨fun _ hn => hn, hss ▸ List.subset_append_left _ _⟩

/-!
## Replacing the stored graph
-/

/-- Both stores are filled in turn, up to the first entry that is refused. -/
theorem replaceStored_cases {ns : List Neuron} {ss : List Synapse} {e : Engine α}
    (hn : e.neuronStore.isKeyed = true) (hs : e.synapseStore.isKeyed = true)
    (hns : ∀ n ∈ ns, Durable Neuron.Alike n) (hss : ∀ s ∈ ss, Durable Synapse.Alike s) :
    ∃ neuronStore synapseStore ns' ss' r,
      (replaceStored ns ss).outcome e = (r, { e with neuronStore, synapseStore }) ∧
        neuronStore.Lists Neuron.Alike ns' ∧ synapseStore.Lists Synapse.Alike ss' ∧
        Inserted ns ss { e with neuronStore, synapseStore } ns' ss' r := by
  have hneurons := outcome_forM_onNeurons Store.create ns
    { e with synapseStore := e.synapseStore.cleared, neuronStore := e.neuronStore.cleared }
  -- Both stores are cleared before anything is added, so either may stop at what it has then.
  rw [outcome_replaceStored_clear]
  rcases Store.forM_create_cases (Store.lists_cleared hn) hns with
    ⟨t, hrun, ht⟩ | ⟨before, n, after, f, t, heq, ht, hrefused, hrun⟩
  · rw [outcome_onNeurons rfl hrun] at hneurons
    have hsynapses := outcome_forM_onSynapses Store.create ss
      { e with synapseStore := e.synapseStore.cleared, neuronStore := t }
    rw [outcome_bind_of_ok hneurons]
    rcases Store.forM_create_cases (Store.lists_cleared hs) hss with
      ⟨u, hrun', hu⟩ | ⟨before, s, after, f, u, heq, hu, hrefused, hrun'⟩
    · rw [outcome_onSynapses rfl hrun'] at hsynapses
      exact ⟨t, u, ns, ss, _, hsynapses, ht, hu, .all⟩
    · rw [outcome_onSynapses rfl hrun'] at hsynapses
      exact ⟨t, u, ns, before, _, hsynapses, ht, hu, .synapse heq hrefused⟩
  · rw [outcome_onNeurons rfl hrun] at hneurons
    rw [outcome_bind_of_error hneurons]
    exact ⟨t, _, before, [], _, rfl, ht, Store.lists_cleared hs, .neuron heq hrefused⟩

variable [Scalar α]

/-!
## Following the stores
-/

theorem outcome_refreshAndCompile {ns : List Neuron} {ss : List Synapse} {e : Engine α}
    (h : e.Primed) (hns : e.neuronStore.getAll = .ok ns) (hss : e.synapseStore.getAll = .ok ss) :
    refreshAndCompile.outcome e =
      (compile >>= fun _ => projection).outcome (e.withCache ns ss) := by
  have hready : (e.withCache ns ss).hasReadyBackend = true := h.booted.hasReadyBackend
  rw [refreshAndCompile, outcome_bind_of_ok (outcome_refresh_of_getAll hns hss), outcome_get_bind,
    hready, if_pos rfl]

/-- An engine that reads its stores compiles what they hold, or gives the graph up. -/
theorem inStep_refreshAndCompile {ns : List Neuron} {ss : List Synapse} {e : Engine α}
    (h : e.Primed) (hns : e.neuronStore.Lists Neuron.Alike ns)
    (hss : e.synapseStore.Lists Synapse.Alike ss) (hname : Compiled.nameable ns ss = true) :
    InStep ns ss (refreshAndCompile.after e) := by
  rcases hns with ⟨ms, hms, hns⟩
  rcases hss with ⟨ts, hts, hss⟩
  have hready : (e.withCache ms ts).hasReadyBackend = true := h.booted.hasReadyBackend
  have hafter : refreshAndCompile.after e = compile.after (e.withCache ms ts) := by
    rw [after, outcome_refreshAndCompile h hms hts]
    exact bind_induction (I := fun t => t = compile.after (e.withCache ms ts)) rfl
      fun _ t ht => (respects_projection (R := Eq) t).symm.trans ht
  have hsame := undisturbed_refreshAndCompile hms hts
  have hneurons : (refreshAndCompile.after e).neurons = ms := hsame.neurons
  have hsynapses : (refreshAndCompile.after e).synapses = ts := hsame.synapses
  refine ⟨?_, ?_, hneurons.symm ▸ hns, hsynapses.symm ▸ hss, fun c hc => ?_⟩
  · rw [hneurons, hsame.neuronStore]
    exact hms
  · rw [hsynapses, hsame.synapseStore]
    exact hts
  · rw [hneurons, hsynapses]
    rw [hafter] at hc
    rcases compiled_of_compile hready ((nameable_of_alike hns hss).trans hname) with
      hsome | ⟨-, hnone⟩
    · exact Option.some.inj (hc.symm.trans hsome)
    · cases hc.symm.trans hnone

/-- Where there is room, an engine that reads its stores succeeds and has their graph compiled. -/
theorem refreshAndCompile_of_hasRoom {ns : List Neuron} {ss : List Synapse} {e : Engine α}
    (h : e.Primed) (hs : e.Suited) (hns : e.neuronStore.Lists Neuron.Alike ns)
    (hss : e.synapseStore.Lists Synapse.Alike ss) (hname : Compiled.nameable ns ss = true)
    (htags : ∀ n ∈ ns, ∃ f, Activation.ofValue n.activation = .ok f)
    (hroom : e.HasRoom ns.length) :
    refreshAndCompile.outcome e =
        (.ok (Projection.ofGraph (refreshAndCompile.after e).neurons
          (refreshAndCompile.after e).synapses), refreshAndCompile.after e) ∧
      (refreshAndCompile.after e).compiled =
        some (Compiled.flatten (refreshAndCompile.after e).neurons
          (refreshAndCompile.after e).synapses) := by
  rcases hns with ⟨ms, hms, hns⟩
  rcases hss with ⟨ts, hts, hss⟩
  have hname' : Compiled.nameable ms ts = true := (nameable_of_alike hns hss).trans hname
  have hready : (e.withCache ms ts).hasReadyBackend = true := h.booted.hasReadyBackend
  have hcodes : ∃ codes, (ms.map Neuron.activation).mapM Activation.ofValue = .ok codes := by
    rw [map_eq_of_forall₂ (f := Neuron.activation) (fun _ _ h => h.activation) hns]
    refine exists_mapM_eq_ok fun v hv => ?_
    rcases List.mem_map.mp hv with ⟨n, hn, rfl⟩
    exact htags n hn
  rcases hcodes with ⟨codes, hcodes⟩
  have hprimed : (e.withCache ms ts).Primed := ⟨h.booted, h.targets, h.trainable⟩
  have hroom' : (e.withCache ms ts).HasRoom ms.length := by
    rw [← hns.length_eq]
    exact ⟨hroom.staged, hroom.buffers⟩
  rcases outcome_of_succeeds (compile_succeeds_of_hasRoom hprimed hs hname' hcodes hroom') with
    ⟨c, hcompile⟩
  have hsame := compiling_undisturbed.compile (e.withCache ms ts)
  have hneurons : (compile.after (e.withCache ms ts)).neurons = ms := hsame.neurons
  have hsynapses : (compile.after (e.withCache ms ts)).synapses = ts := hsame.synapses
  have hprojection : projection.outcome (compile.after (e.withCache ms ts)) =
      (.ok (Projection.ofGraph ms ts), compile.after (e.withCache ms ts)) := by
    rw [outcome_projection_of_nameable (by rw [hneurons, hsynapses]; exact hname'), hneurons,
      hsynapses]
  have hrun := outcome_refreshAndCompile h hms hts
  rw [outcome_bind_of_ok hcompile, hprojection] at hrun
  rw [after_of_outcome hrun, hneurons, hsynapses]
  refine ⟨hrun, ?_⟩
  rcases compiled_of_compile hready hname' with hsome | ⟨⟨f, hfails⟩, -⟩
  · exact hsome
  · rw [hcompile] at hfails
    cases hfails

/-!
## Importing
-/

/-- Whether the stored graph was replaced or not, the stores are read anew after it. -/
theorem after_importGraph {doc : Value} {ns : List Neuron} {ss : List Synapse}
    {r : Except Fault Unit} {e t : Engine α} (hparse : Document.parse doc = .ok (ns, ss))
    (hrun : (replaceStored ns ss).outcome e = (r, t)) :
    (importGraph doc).after e = refreshAndCompile.after t := by
  rw [importGraph, hparse, after, outcome_of_ok_bind]
  cases r with
  | ok _ =>
      rw [outcome_bind_of_ok (outcome_onFault_of_ok hrun _)]
      rfl
  | error f =>
      rcases outcome_onFault_of_error hrun (Attempt.void refreshAndCompile) with ⟨f', hfault⟩
      have hfails := outcome_bind_of_error hfault fun _ => refreshAndCompile
      exact (congrArg Prod.snd hfails).trans (after_void _ t)

/-- If the stores can be read anew, only the fault of an entry is left. -/
theorem outcome_importGraph {doc : Value} {ns : List Neuron} {ss : List Synapse} {p : Projection}
    {r : Except Fault Unit} {e t u : Engine α} (hparse : Document.parse doc = .ok (ns, ss))
    (hrun : (replaceStored ns ss).outcome e = (r, t))
    (hread : refreshAndCompile.outcome t = (.ok p, u)) :
    (importGraph doc).outcome e = (r.map fun _ => p, u) := by
  rw [importGraph, hparse, outcome_of_ok_bind]
  cases r with
  | ok _ =>
      rw [outcome_bind_of_ok (outcome_onFault_of_ok hrun _)]
      exact hread
  | error f =>
      have hclean : (Attempt.void refreshAndCompile).succeeds t = true := by
        rw [succeeds_void]
        exact succeeds_of_ok (congrArg Prod.fst hread)
      have hfault := outcome_onFault_of_cleanup hrun hclean
      rw [after_void, after_of_outcome hread] at hfault
      exact outcome_bind_of_error hfault fun _ => refreshAndCompile

/--
What importing a document comes to.  If it cannot be read, nothing changes.  Otherwise its graph
is put into the stores as far as they take it, and the engine is in step with them.  Where there
is room for what they hold, that is compiled, and the import ends in the fault of the entry that
was refused, or in the graph if there was none.
-/
structure ImportsInStep (room : Nat → Prop) (doc : Value) (e : Engine α) : Prop where
  unread : ∀ f, Document.parse doc = .error f → (importGraph doc).outcome e = (.error f, e)
  read : ∀ ns ss, Document.parse doc = .ok (ns, ss) → ∃ ns' ss' r e',
    (importGraph doc).after e = e' ∧ Inserted ns ss e' ns' ss' r ∧ InStep ns' ss' e' ∧
      (room ns'.length → e'.compiled = some (Compiled.flatten e'.neurons e'.synapses) ∧
        ((importGraph doc).outcome e).1 = r.map fun _ => Projection.ofGraph e'.neurons e'.synapses)

theorem importGraph_in_step {doc : Value} {e : Engine α} (h : e.Operated true)
    (hns : e.neuronStore.isKeyed = true) (hss : e.synapseStore.isKeyed = true)
    (hnamed : Named IsText doc) (hnumbered : Numbered doc) :
    ImportsInStep (fun size => e.HasRoom size) doc e := by
  constructor
  · intro f hparse
    rw [importGraph, hparse, outcome_of_error_bind]
  intro ns ss hparse
  rcases hnamed ns ss hparse with ⟨hids, hends⟩
  rcases hnumbered ns ss hparse with ⟨hbiases, hweights⟩
  have hdurable : ∀ n ∈ ns, Durable Neuron.Alike n := by
    intro n hn
    rcases Document.known_of_parse hparse hn with ⟨f, hf⟩
    exact Neuron.durable (hids n hn) (hbiases n hn) hf
  have hdurable' : ∀ s ∈ ss, Durable Synapse.Alike s := fun s hs =>
    Synapse.durable (hends s hs).1 (hends s hs).2.1 (hends s hs).2.2 (hweights s hs)
  rcases replaceStored_cases hns hss hdurable hdurable' with
    ⟨neuronStore, synapseStore, ns', ss', r, hrun, hns', hss', hinserted⟩
  have hsub := hinserted.subset
  have hname : Compiled.nameable ns' ss' = true := by
    have hkey := Value.idClass_isText.isKey
    simp only [Compiled.nameable, Bool.and_eq_true, List.all_eq_true]
    exact ⟨fun n hn => (hkey _ (hids n (hsub.1 hn))).1, fun s hs =>
      ⟨(hkey _ (hends s (hsub.2 hs)).2.1).1, (hkey _ (hends s (hsub.2 hs)).2.2).1⟩⟩
  have hprimed := (moving_primed (α := α)).replaceStored ns ss e (h.primed rfl)
  have hsuited := (moving_suited (α := α)).replaceStored ns ss e h.suited
  rw [after_of_outcome hrun] at hprimed hsuited
  -- The stores are read from the same state whether an entry was refused or not.
  have hstep := inStep_refreshAndCompile hprimed hns' hss' hname
  have hstores : (refreshAndCompile.after { e with neuronStore, synapseStore }).neuronStore =
      neuronStore ∧ (refreshAndCompile.after { e with neuronStore, synapseStore }).synapseStore =
        synapseStore := by
    rcases hns' with ⟨ms, hms, -⟩
    rcases hss' with ⟨ts, hts, -⟩
    have hsame := undisturbed_refreshAndCompile (e := { e with neuronStore, synapseStore }) hms hts
    exact ⟨hsame.neuronStore, hsame.synapseStore⟩
  refine ⟨ns', ss', r, _, after_importGraph hparse hrun,
    hinserted.of_stores hstores.1 hstores.2, hstep, fun hroom => ?_⟩
  have htags : ∀ n ∈ ns', ∃ f, Activation.ofValue n.activation = .ok f :=
    fun n hn => Document.known_of_parse hparse (hsub.1 hn)
  rcases refreshAndCompile_of_hasRoom hprimed hsuited hns' hss' hname htags
    ⟨hroom.staged, hroom.buffers⟩ with ⟨hread, hcompiled⟩
  exact ⟨hcompiled, congrArg Prod.fst (outcome_importGraph hparse hrun hread)⟩

/-- An engine on empty stores that makes no network up. -/
def unseeded (neuronStore : Store Neuron) (synapseStore : Store Synapse) : Engine Float32 :=
  create {} { EngineSettings.trainable with seedDefaultNetwork := .flag false } .default
    neuronStore synapseStore none

theorem operated_init_unseeded {neuronStore : Store Neuron} {synapseStore : Store Synapse}
    (h : init.succeeds (unseeded neuronStore synapseStore) = true) :
    (init.after (unseeded neuronStore synapseStore)).Operated true := by
  have hdone := (Operated.created (α := Float32) {}
    { EngineSettings.trainable with seedDefaultNetwork := .flag false } .default
    neuronStore synapseStore none).done (.act .init)
  rw [Deed.perform, Action.perform, after_void, succeeds_void] at hdone
  rw [← h]
  exact hdone

/-- A document in which an input leads to an output twice, by the same synapse. -/
def relinking : Value := Document.build endpoints [link, link] (.text "2.0")

theorem parse_relinking : Document.parse relinking = .ok (endpoints, [link, link]) := by
  apply Document.parse_build
  intro n hn
  simp only [endpoints, List.mem_cons, List.not_mem_nil, or_false] at hn
  rcases hn with rfl | rfl <;> exact ⟨.linear, rfl⟩

/-- An engine on empty tables that is initialised. -/
def tabled : Engine Float32 := init.after (unseeded (.table .empty) (.table .empty))

theorem hasRoom_tabled : tabled.HasRoom 2 :=
  ⟨⟨1, 2, rfl, rfl⟩, fun _ _ _ => ⟨1, rfl, by decide⟩⟩

/-- The table refuses the synapse when it comes again, and the engine follows what it has then. -/
theorem importGraph_in_step_relinking :
    tabled.Operated true ∧ Named IsText relinking ∧ Numbered relinking ∧ tabled.HasRoom 2 ∧
      ((importGraph relinking).outcome tabled).1 = .error (.notUnique "synapses.id") ∧
      ∃ e', (importGraph relinking).after tabled = e' ∧ InStep endpoints [link] e' ∧
        e'.compiled = some (Compiled.flatten e'.neurons e'.synapses) := by
  have hoperated : tabled.Operated true := operated_init_unseeded (by decide +kernel)
  have hnamed : Named IsText relinking :=
    named_of_parse parse_relinking (by simp [endpoints, IsText]) (by simp [link, IsText])
  have hnumbered : Numbered relinking :=
    numbered_of_parse parse_relinking (by decide +kernel) (by decide +kernel)
  have hneurons : ((importGraph relinking).after tabled).neurons.length = 2 := by decide +kernel
  have hsynapses : ((importGraph relinking).after tabled).synapses.length = 1 := by
    decide +kernel
  rcases (importGraph_in_step hoperated rfl rfl hnamed hnumbered).read _ _ parse_relinking with
    ⟨ns', ss', r, e', rfl, hinserted, hstep, hroom⟩
  refine ⟨hoperated, hnamed, hnumbered, hasRoom_tabled, rfl, _, rfl, ?_⟩
  have hns := hstep.neurons.length_eq.trans hneurons
  have hss := hstep.synapses.length_eq.trans hsynapses
  rw [hns] at hroom
  cases hinserted with
  | all => cases hss
  | neuron hbefore _ =>
      have hlength := congrArg List.length hbefore
      rw [List.length_append, hns, List.length_cons] at hlength
      simp only [endpoints, List.length_cons, List.length_nil] at hlength
      omega
  | @synapse before after s f hbefore _ =>
      obtain ⟨s', rfl⟩ := List.length_eq_one_iff.mp hss
      cases hbefore
      exact ⟨hstep, (hroom hasRoom_tabled).1⟩

/-- A batch of more samples than a buffer has rows. -/
def overfullBatch : TrainingSettings :=
  { TrainingSettings.default with
    microBatchSize := .whole 2147483648, microBatchSize_not_less := by decide }

/-- An initialised engine on empty stores that has been given such a batch. -/
def crowded : Engine Float32 :=
  (setTraining overfullBatch).after (init.after (unseeded (.keyed .empty) (.keyed .empty)))

/-- The document of the empty graph. -/
def emptyDocument : Value := Document.build [] [] (.text "2.0")

/-- Where there is no room, not even the empty graph is compiled when it is imported. -/
theorem importGraph_not_in_step_crowded :
    ((importGraph emptyDocument).after crowded).compiled.isNone = true ∧
      ¬∀ (doc : Value) (e : Engine Float32), e.Operated true → e.neuronStore.isKeyed = true →
        e.synapseStore.isKeyed = true → Named IsText doc → Numbered doc →
          ImportsInStep (fun _ => True) doc e := by
  have hnone : ((importGraph emptyDocument).after crowded).compiled.isNone = true := by
    decide +kernel
  have hoperated : crowded.Operated true :=
    (operated_init_unseeded (by decide +kernel)).done (.act (.setTraining overfullBatch))
  have hparse : Document.parse emptyDocument = .ok ([], []) := rfl
  have hnamed : Named IsText emptyDocument := named_of_parse hparse (by simp) (by simp)
  have hnumbered : Numbered emptyDocument := numbered_of_parse hparse (by simp) (by simp)
  refine ⟨hnone, fun h => ?_⟩
  rcases (h _ _ hoperated rfl rfl hnamed hnumbered).read [] [] hparse with
    ⟨ns', ss', r, e', rfl, -, -, hroom⟩
  rw [(hroom trivial).1] at hnone
  cases hnone

end Engine
end Plexus
