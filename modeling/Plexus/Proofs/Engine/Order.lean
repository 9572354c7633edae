import Plexus.Proofs.Engine.Import
import Plexus.Proofs.Engine.Retention
import Plexus.Proofs.Engine.Trained
import Plexus.Proofs.Store.Keys
import Plexus.Proofs.Training.Failure

/-!
# The order of the compiled neurons

The compiled graph has the neurons in the order that the cache had when it was compiled.  A store
that updates an entry by removing and adding it lists the entry last, so when trained biases are
written back to it, the neurons that they change move to the end of the cache, one after the other.
Whatever else reads the stores compiles the graph in their order again.
-/

namespace Plexus
namespace Engine

open Attempt
open Value (IsText)

variable {α β γ : Type} [Scalar α]

/-!
## Writing biases back
-/

/-- Whether the bias of a neuron differs from that of its slot. -/
def unsaved (c : Compiled α) (biases : Array α) (n : Neuron) : Bool :=
  match c.index.find? n.id with
  | none => false
  | some i => Scalar.toFloat (Scalar.cell biases i) != n.bias

/-- The identifiers of the cached neurons whose biases in the backend are others, in order. -/
def outdated (e : Engine α) : List Value :=
  match e.compiled, e.readParameters? with
  | some c, some (_, biases) => (e.neurons.filter (unsaved c biases)).map Neuron.id
  | _, _ => []

theorem outdated_subset (e : Engine α) : e.outdated ⊆ e.neurons.map Neuron.id := by
  rw [outdated]
  split
  · exact List.map_subset Neuron.id (List.filter_subset_self _)
  · exact List.nil_subset _

omit [Scalar α] in
theorem outcome_onNeurons_eq_ok {step : Attempt (Store Neuron) β} {e e' : Engine α} {b : β}
    (h : (onNeurons step).outcome e = (.ok b, e')) :
    ∃ s, step.outcome e.neuronStore = (.ok b, s) ∧ e' = { e with neuronStore := s } :=
  outcome_onPart_eq_ok h

/-- A neuron is written back if its bias differs, and otherwise left where it is. -/
theorem keys_of_syncNeuron {c : Compiled α} {biases : Array α} {n : Neuron} {e e' : Engine α}
    (hid : n.id.IsText) (hmem : n.id ∈ e.neuronStore.keys)
    (h : (syncNeuron c biases n).outcome e = (.ok (), e')) :
    e.neuronStore.Tends e'.neuronStore ∧ e'.neuronStore.keys =
      e.neuronStore.reordered e.neuronStore.keys
        (([n].filter (unsaved c biases)).map Neuron.id) := by
  rcases outcome_bind_eq_ok h with ⟨i, t, hindex, h⟩
  rcases outcome_of_eq_ok hindex with ⟨hi, rfl⟩
  have hfind := find?_of_indexOf_eq_ok hi
  have hunsaved : unsaved c biases n = (Scalar.toFloat (Scalar.cell biases i) != n.bias) := by
    rw [unsaved, hfind]
  dsimp only at h
  split at h
  · next hdiffers =>
    rcases outcome_bind_eq_ok h with ⟨m, t, hmake, h⟩
    rcases outcome_of_eq_ok hmake with ⟨hm, rfl⟩
    rcases outcome_bind_eq_ok h with ⟨_, u, hupdate, h⟩
    cases h
    rcases outcome_onNeurons_eq_ok hupdate with ⟨s, hs, rfl⟩
    have hmid : Identified.id m = n.id := Neuron.id_of_make hm
    rw [Store.update, Store.outcome_step] at hs
    split at hs
    · next t hupdated =>
      cases hs
      have hkeys := Store.keys_updated (hmid.symm ▸ hid) (hmid.symm ▸ hmem) hupdated
      rw [hmid] at hkeys
      rw [List.filter_cons_of_pos (hunsaved.trans hdiffers)]
      exact hkeys
    · cases hs
  · next hequal =>
    cases h
    rw [List.filter_cons_of_neg (by rw [hunsaved]; exact hequal)]
    exact ⟨refl _, (Store.reordered_nil _ _).symm⟩

theorem keys_of_syncNeurons {c : Compiled α} {biases : Array α} {ns : List Neuron}
    {e e' : Engine α} (hns : ∀ n ∈ ns, n.id.IsText ∧ n.id ∈ e.neuronStore.keys)
    (h : (ns.forM (syncNeuron c biases)).outcome e = (.ok ⟨⟩, e')) :
    e.neuronStore.Tends e'.neuronStore ∧ e'.neuronStore.keys =
      e.neuronStore.reordered e.neuronStore.keys
        ((ns.filter (unsaved c biases)).map Neuron.id) := by
  induction ns generalizing e with
  | nil =>
      cases h
      exact ⟨refl _, (Store.reordered_nil _ _).symm⟩
  | cons n rest ih =>
      rw [outcome_forM_cons] at h
      rcases outcome_bind_eq_ok h with ⟨_, t, hn, hrest⟩
      rcases hns n List.mem_cons_self with ⟨hid, hmem⟩
      rcases keys_of_syncNeuron hid hmem hn with ⟨htends, hkeys⟩
      have hmoved : ∀ v ∈ ([n].filter (unsaved c biases)).map Neuron.id, v.IsText := by
        intro v hv
        rcases List.mem_map.mp hv with ⟨m, hm, rfl⟩
        rw [List.mem_singleton.mp (List.mem_filter.mp hm).1]
        exact hid
      -- Moving a key to the end loses none, so the rest of the neurons are still stored.
      have hns' : ∀ m ∈ rest, m.id.IsText ∧ m.id ∈ t.neuronStore.keys := by
        intro m hm
        rcases hns m (List.mem_cons_of_mem n hm) with ⟨hid', hmem'⟩
        rw [hkeys]
        exact ⟨hid', Store.mem_reordered _ hmoved hmem'⟩
      rcases ih hns' hrest with ⟨htends', hkeys'⟩
      have hsplit : n :: rest = [n] ++ rest := rfl
      rw [hsplit, List.filter_append, List.map_append, Store.reordered_append, hkeys',
        htends.reordered, hkeys]
      exact ⟨IsTrans.trans _ _ _ htends htends', rfl⟩

theorem fixes_syncNeuron (c : Compiled α) (biases : Array α) (n : Neuron) :
    Respects (Fixes synapseStore) (syncNeuron c biases n) := by
  refine (respects_of _).bind fun i => ?_
  dsimp only
  split
  · exact (respects_of _).bind fun m => Respects.bind (fun e => rfl) fun _ =>
      respects_modify fun e => rfl
  · exact respects_pure _

theorem fixes_syncSynapse (c : Compiled α) (weights : Array α) (s : Synapse) :
    Respects (Fixes neuronStore) (syncSynapse c weights s) := by
  refine respects_guard ?_
  split
  · exact respects_pure _
  · dsimp only
    split
    · exact fun e => rfl
    · exact respects_pure _

/-- A synapse is only written back if its ends can name something. -/
theorem every_syncSynapse (c : Compiled α) (weights : Array α) (s : Synapse) :
    Respects (Kept fun e : Engine α => e.synapseStore.Every Synapse.Linkable)
      (syncSynapse c weights s) := by
  intro e he
  rw [syncSynapse]
  split
  · exact he
  · next hends =>
    have hlinkable : s.Linkable := by
      rw [Bool.not_eq_true, Bool.not_eq_false', Bool.and_eq_true] at hends
      exact hends
    split
    · exact he
    · next i _ =>
      dsimp only
      split
      · exact Store.every_update (e := { s with weight := Scalar.toFloat (Scalar.cell weights i) })
          hlinkable e.synapseStore he
      · exact he

/-!
## Engines in order
-/

omit [Scalar α] in
theorem outcome_refresh_eq_ok {e e' : Engine α} (h : refresh.outcome e = (.ok (), e')) :
    ∃ ns ss, e.neuronStore.getAll = .ok ns ∧ e.synapseStore.getAll = .ok ss ∧
      e' = e.withCache ns ss := by
  rw [refresh, outcome_get_bind] at h
  rcases outcome_bind_eq_ok h with ⟨ns, t, hneurons, h⟩
  rcases outcome_of_eq_ok hneurons with ⟨hns, rfl⟩
  rw [outcome_modify_bind, outcome_get_bind] at h
  rcases outcome_bind_eq_ok h with ⟨ss, t, hsynapses, h⟩
  rcases outcome_of_eq_ok hsynapses with ⟨hss, rfl⟩
  cases h
  exact ⟨ns, ss, hns, hss, rfl⟩

/-- An engine whose cache is what its stores hold. -/
structure Current (e : Engine α) : Prop where
  neurons : e.neuronStore.getAll = .ok e.neurons
  synapses : e.synapseStore.getAll = .ok e.synapses
  tidy : e.neuronStore.Tidy

/--
An engine whose cache lists the neurons in the order of the compiled graph, but for some moves to
the end that its store makes.
-/
structure Placed (moves : List Value) (e : Engine α) : Prop extends Current e where
  perm : ∀ c, e.compiled = some c → (e.neurons.map Neuron.id).Perm c.ids
  order : ∀ c, e.compiled = some c → e.neurons.map Neuron.id = e.neuronStore.reordered c.ids moves
  linkable : ∀ c, e.compiled = some c → ∀ s ∈ e.synapses, s.Linkable

omit [Scalar α] in
theorem Current.of_undisturbed {e e' : Engine α} (h : e.Current) (hsame : e.Undisturbed e') :
    e'.Current := by
  constructor
  · rw [hsame.neuronStore, hsame.neurons]
    exact h.neurons
  · rw [hsame.synapseStore, hsame.synapses]
    exact h.synapses
  · rw [hsame.neuronStore]
    exact h.tidy

omit [Scalar α] in
theorem Placed.of_undisturbed {moves : List Value} {e e' : Engine α} (h : e.Placed moves)
    (hsame : e.Undisturbed e') (hc : ∀ c, e'.compiled = some c → e.compiled = some c) :
    e'.Placed moves := by
  refine ⟨h.toCurrent.of_undisturbed hsame, fun c hsome => ?_, fun c hsome => ?_, fun c hsome => ?_⟩
  · rw [hsame.neurons]
    exact h.perm c (hc c hsome)
  · rw [hsame.neurons, hsame.neuronStore]
    exact h.order c (hc c hsome)
  · rw [hsame.synapses]
    exact h.linkable c (hc c hsome)

omit [Scalar α] in
theorem Current.placed_of_not_compiled {e : Engine α} (h : e.Current) (hc : e.compiled = none)
    (moves : List Value) : e.Placed moves := by
  refine ⟨h, fun c hsome => ?_, fun c hsome => ?_, fun c hsome => ?_⟩
  · rw [hc] at hsome
    cases hsome
  · rw [hc] at hsome
    cases hsome
  · rw [hc] at hsome
    cases hsome

/-- A compilation succeeds only on a backend that has its device. -/
theorem ready_of_compile {e e' : Engine α} {c : Compiled α}
    (h : compile.outcome e = (.ok c, e')) : e.hasReadyBackend = true := by
  rw [← Bool.not_eq_false]
  intro hnot
  rw [compile, outcome_get_bind, hnot] at h
  cases h

/-- A compilation that succeeds has compiled the cache. -/
theorem compile_eq_ok {e e' : Engine α} {c : Compiled α}
    (h : compile.outcome e = (.ok c, e')) :
    Compiled.nameable e.neurons e.synapses = true ∧
      e'.compiled = some (Compiled.flatten e.neurons e.synapses) := by
  have hready := ready_of_compile h
  have hname : Compiled.nameable e.neurons e.synapses = true := by
    rw [outcome_compile_of_ready hready] at h
    rcases outcome_bind_eq_ok h with ⟨d, t, hd, -⟩
    have hgraph := (outcome_of_eq_ok hd).1
    rw [Compiled.compile] at hgraph
    split at hgraph
    · next hname => exact hname
    · cases hgraph
  refine ⟨hname, ?_⟩
  rcases compiled_of_compile hready hname with hsome | ⟨⟨f, hfails⟩, -⟩
  · rw [after_of_outcome h] at hsome
    exact hsome
  · rw [h] at hfails
    cases hfails

theorem Current.placed_of_compile {e e' : Engine α} {c : Compiled α} (hcurrent : e.Current)
    (h : compile.outcome e = (.ok c, e')) : e'.Placed [] := by
  rcases compile_eq_ok h with ⟨hname, hc⟩
  have hsame := compiling_undisturbed.compile e
  rw [after_of_outcome h] at hsame
  have hids : ∀ d, e'.compiled = some d → d.ids = e'.neurons.map Neuron.id := by
    intro d hd
    rw [hc, Option.some.injEq] at hd
    rw [← hd, hsame.neurons]
    rfl
  refine ⟨hcurrent.of_undisturbed hsame, fun d hd => ?_, fun d hd => ?_, fun d hd s hs => ?_⟩
  · rw [hids d hd]
  · rw [hids d hd, Store.reordered_nil]
  · rw [Compiled.nameable, Bool.and_eq_true, List.all_eq_true, List.all_eq_true] at hname
    rw [hsame.synapses] at hs
    exact Bool.and_eq_true_iff.mp (hname.2 s hs)

/-- Reading the stores anew and compiling what they hold restores the order. -/
theorem placed_of_refreshAndCompile {e e' : Engine α} {p : Projection}
    (htidy : e.neuronStore.Tidy) (hready : e.hasReadyBackend = true)
    (h : refreshAndCompile.outcome e = (.ok p, e')) : e'.Placed [] := by
  rcases outcome_bind_eq_ok h with ⟨_, t, hrefresh, h⟩
  rcases outcome_refresh_eq_ok hrefresh with ⟨ns, ss, hns, hss, rfl⟩
  have hready' : (e.withCache ns ss).hasReadyBackend = true := hready
  rw [outcome_get_bind, hready', if_pos rfl] at h
  rcases outcome_bind_eq_ok h with ⟨c, t, hcompile, h⟩
  have hcurrent : (e.withCache ns ss).Current := ⟨hns, hss, htidy⟩
  have hprojected : e' = t := by
    have hsame := respects_projection (R := Eq) t
    rw [after_of_outcome h] at hsame
    exact hsame.symm
  rw [hprojected]
  exact hcurrent.placed_of_compile hcompile

/-- Parameters that are written back have been read, and the stores are read after them. -/
theorem syncWeights_eq_ok {e e' : Engine α} (h : syncWeights.outcome e = (.ok (), e')) :
    ∃ c weights biases e₁ e₂ e₃ ns ss, e.compiled = some c ∧
      (onBackend Backend.readParameters).outcome e = (.ok (weights, biases), e₁) ∧
      (e.neurons.forM (syncNeuron c biases)).outcome e₁ = (.ok ⟨⟩, e₂) ∧
      (e.synapses.forM (syncSynapse c weights)).outcome e₂ = (.ok ⟨⟩, e₃) ∧
      e₃.neuronStore.getAll = .ok ns ∧ e₃.synapseStore.getAll = .ok ss ∧
      e' = { e₃.withCache ns ss with trained := false } := by
  rw [syncWeights, outcome_get_bind] at h
  split at h
  · cases h
  · next c hc =>
    split at h
    · cases h
    · rcases outcome_bind_eq_ok h with ⟨⟨weights, biases⟩, e₁, hread, h⟩
      rcases outcome_bind_eq_ok h with ⟨_, e₂, hneurons, h⟩
      rcases outcome_bind_eq_ok h with ⟨_, e₃, hsynapses, h⟩
      rcases outcome_bind_eq_ok h with ⟨_, e₄, hrefresh, h⟩
      rcases outcome_refresh_eq_ok hrefresh with ⟨ns, ss, hns, hss, rfl⟩
      cases h
      exact ⟨c, weights, biases, e₁, e₂, e₃, ns, ss, hc, hread, hneurons, hsynapses, hns, hss, rfl⟩

omit [Scalar α] in
theorem compiled_onBackend (step : Attempt (Backend α) β) :
    Respects (Fixes compiled) (onBackend step) :=
  respects_onBackend fun _ _ _ => rfl

omit [Scalar α] in
theorem compiled_keepTargets (targets : Operand α) :
    Respects (Fixes compiled) (keepTargets targets) :=
  (respects_of _).bind fun _ => respects_modify fun _ => rfl

theorem syncing_compiled : Syncing (Fixes (compiled (α := α))) where
  graph _ _ _ _ _ _ _ := rfl
  saved _ := rfl
  read := compiled_onBackend _

/-- Writing biases back moves their neurons to the end of the cache, if the store does. -/
theorem Current.of_syncWeights {e e' : Engine α} (h : e.Current)
    (hdistinct : Distinct IsText e.neurons) (hrun : syncWeights.outcome e = (.ok (), e')) :
    e'.Current ∧ e.neuronStore.Tends e'.neuronStore ∧ e'.neurons.map Neuron.id =
      e.neuronStore.reordered (e.neurons.map Neuron.id) e.outdated := by
  rcases syncWeights_eq_ok hrun with
    ⟨c, weights, biases, e₁, e₂, e₃, ns, ss, hc, hread, hneurons, hsynapses, hns, hss, rfl⟩
  have houtdated : e.outdated = (e.neurons.filter (unsaved c biases)).map Neuron.id := by
    rw [outdated, hc, readParameters?, hread]
    rfl
  have hsame := undisturbed_onBackend Backend.readParameters e
  rw [after_of_outcome hread] at hsame
  have hkeys : e₁.neuronStore.keys = e.neurons.map Neuron.id := by
    rw [hsame.neuronStore]
    exact Store.keys_of_getAll h.tidy h.neurons
  have hmem : ∀ n ∈ e.neurons, n.id.IsText ∧ n.id ∈ e₁.neuronStore.keys := by
    intro n hn
    rw [hkeys]
    exact ⟨hdistinct.named n hn, List.mem_map_of_mem hn⟩
  rcases keys_of_syncNeurons hmem hneurons with ⟨htends, hreordered⟩
  rw [hsame.neuronStore] at htends
  have hstore : e₃.neuronStore = e₂.neuronStore := by
    have hfixed := Respects.forM (fun s (_ : s ∈ e.synapses) => fixes_syncSynapse c weights s) e₂
    rw [after_of_outcome hsynapses] at hfixed
    exact hfixed
  rw [← hstore] at htends hreordered
  have htidy : e₃.neuronStore.Tidy := htends.tidy h.tidy
  refine ⟨⟨hns, hss, htidy⟩, htends, ?_⟩
  calc ns.map Neuron.id = e₃.neuronStore.keys := (Store.keys_of_getAll htidy hns).symm
    _ = e.neuronStore.reordered (e.neurons.map Neuron.id) e.outdated := by
        rw [hreordered, hkeys, houtdated, hsame.neuronStore]

/-- The ends of the cached synapses can still name something when weights have been written back. -/
theorem Current.linkable_of_syncWeights {e e' : Engine α} (h : e.Current)
    (hlinkable : ∀ s ∈ e.synapses, s.Linkable) (hrun : syncWeights.outcome e = (.ok (), e')) :
    ∀ s ∈ e'.synapses, s.Linkable := by
  rcases syncWeights_eq_ok hrun with
    ⟨c, weights, biases, e₁, e₂, e₃, ns, ss, hc, hread, hneurons, hsynapses, hns, hss, rfl⟩
  have hsame := undisturbed_onBackend Backend.readParameters e
  rw [after_of_outcome hread] at hsame
  have hfixed := Respects.forM (fun n (_ : n ∈ e.neurons) => fixes_syncNeuron c biases n) e₁
  rw [after_of_outcome hneurons] at hfixed
  have hevery : e₂.synapseStore.Every Synapse.Linkable := by
    rw [hfixed, hsame.synapseStore]
    exact Store.every_of_getAll h.synapses hlinkable
  have hkept := Respects.forM
    (fun s (_ : s ∈ e.synapses) => every_syncSynapse c weights s) e₂ hevery
  rw [after_of_outcome hsynapses] at hkept
  exact Store.linkable_of_getAll hkept hss

theorem Placed.of_syncWeights {moves : List Value} {e e' : Engine α} (h : e.Placed moves)
    (hdistinct : Distinct IsText e.neurons) (hrun : syncWeights.outcome e = (.ok (), e')) :
    e'.Placed (moves ++ e.outdated) := by
  have hcompiled : e'.compiled = e.compiled := by
    have hfixed := syncing_compiled.syncWeights e
    rw [after_of_outcome hrun] at hfixed
    exact hfixed
  rcases h.toCurrent.of_syncWeights hdistinct hrun with ⟨hcurrent, htends, hids⟩
  refine ⟨hcurrent, fun c hc => ?_, fun c hc => ?_, fun c hc => ?_⟩
  · rw [hcompiled] at hc
    refine List.Perm.trans ?_ (h.perm c hc)
    rw [hids]
    refine Store.perm_reordered _ (fun id hid => ?_) (hdistinct.nodup_ids Value.idClass_isText)
    have hmem := e.outdated_subset hid
    rcases List.mem_map.mp hmem with ⟨n, hn, rfl⟩
    exact ⟨hdistinct.named n hn, hmem⟩
  · rw [hcompiled] at hc
    rw [hids, htends.reordered, Store.reordered_append, ← h.order c hc]
  · rw [hcompiled] at hc
    exact h.toCurrent.linkable_of_syncWeights (h.linkable c hc) hrun

theorem outcome_syncIfTrained_eq_ok {e e' : Engine α}
    (h : syncIfTrained.outcome e = (.ok (), e')) :
    (e.trained = true ∧ syncWeights.outcome e = (.ok (), e')) ∨ (e.trained = false ∧ e' = e) := by
  cases htrained : e.trained with
  | true =>
      rw [syncIfTrained_of_trained htrained] at h
      exact Or.inl ⟨rfl, h⟩
  | false =>
      rw [outcome_syncIfTrained_of_untrained htrained] at h
      cases h
      exact Or.inr ⟨rfl, rfl⟩

theorem Placed.of_syncIfTrained {moves : List Value} {e e' : Engine α} (h : e.Placed moves)
    (hdistinct : Distinct IsText e.neurons) (hrun : syncIfTrained.outcome e = (.ok (), e')) :
    e'.Placed (if e.trained then moves ++ e.outdated else moves) := by
  rcases outcome_syncIfTrained_eq_ok hrun with ⟨htrained, hsync⟩ | ⟨htrained, rfl⟩
  · rw [htrained, if_pos rfl]
    exact h.of_syncWeights hdistinct hsync
  · rw [htrained, if_neg Bool.false_ne_true]
    exact h

/-!
## Changing the graph
-/

/-- An engine with a tidy store of neurons and a backend that has its device. -/
structure Neat (e : Engine α) : Prop where
  tidy : e.neuronStore.Tidy
  ready : e.hasReadyBackend = true

/-- A step that has compiled the graph in the order of the stores, if it succeeds. -/
def Restores (step : Attempt (Engine α) β) : Prop :=
  ∀ e e' b, e.Neat → step.outcome e = (.ok b, e') → e'.Placed []

omit [Scalar α] in
theorem neat_onNeurons {step : Attempt (Store Neuron) β} (h : Respects Store.Tends step) :
    Respects (Kept Neat) (onNeurons (α := α) step) :=
  fun e he => ⟨(h e.neuronStore).tidy he.tidy, he.ready⟩

omit [Scalar α] in
theorem neat_onSynapses (step : Attempt (Store Synapse) β) :
    Respects (Kept Neat) (onSynapses (α := α) step) :=
  fun _ he => ⟨he.tidy, he.ready⟩

omit [Scalar α] in
theorem neat_seedDefaultNetwork : Respects (Kept Neat) (seedDefaultNetwork (α := α)) := by
  have hissue : Respects (Kept Neat) (issueId (α := α)) :=
    respects_get_bind fun e he => ⟨he.tidy, he.ready⟩
  refine hissue.bind fun _ => hissue.bind fun _ => ?_
  refine (neat_onNeurons (Store.tends_create _)).bind fun _ => ?_
  refine (neat_onNeurons (Store.tends_create _)).bind fun _ => ?_
  exact hissue.bind fun _ => neat_onSynapses _

omit [Scalar α] in
theorem neat_replaceStored (ns : List Neuron) (ss : List Synapse) :
    Respects (Kept Neat) (replaceStored (α := α) ns ss) := by
  refine (neat_onSynapses _).bind fun _ => (neat_onNeurons Store.tends_clear).bind fun _ => ?_
  refine (Respects.forM fun n _ => neat_onNeurons (Store.tends_create n)).bind fun _ => ?_
  exact Respects.forM fun s _ => neat_onSynapses _

theorem restores_refreshAndCompile : Restores (refreshAndCompile (α := α)) :=
  fun _ _ _ he h => placed_of_refreshAndCompile he.tidy he.ready h

omit [Scalar α] in
theorem Restores.after {first : Attempt (Engine α) β} {next : β → Attempt (Engine α) γ}
    (hfirst : Respects (Kept Neat) first) (hnext : ∀ b, Restores (next b)) :
    Restores (first >>= next) := by
  intro e e' c he h
  rcases outcome_bind_eq_ok h with ⟨b, t, hrun, h⟩
  have ht := hfirst e he
  rw [after_of_outcome hrun] at ht
  exact hnext b t e' c ht h

theorem restores_importGraph (doc : Value) : Restores (importGraph (α := α) doc) := by
  refine Restores.after (respects_of _) fun graph => ?_
  intro e e' p he h
  rcases outcome_bind_eq_ok h with ⟨_, t, hreplaced, h⟩
  have ht := neat_replaceStored graph.1 graph.2 e he
  rw [after_of_outcome (outcome_onFault_eq_ok hreplaced)] at ht
  exact restores_refreshAndCompile t e' p ht h

/-- What begins with writing parameters back restores the order if the rest of it does. -/
theorem Placed.of_change {moves : List Value} {e e' : Engine α} {p : Projection}
    {step : Attempt (Engine α) Projection} (h : e.Placed moves) (hprimed : e.Primed)
    (hdistinct : Distinct IsText e.neurons) (hstep : Restores step)
    (hrun : (syncIfTrained >>= fun _ => step).outcome e = (.ok p, e')) : e'.Placed [] := by
  rcases outcome_bind_eq_ok hrun with ⟨_, t, hsync, hrun⟩
  have ht := moving_primed.syncIfTrained e hprimed
  rw [after_of_outcome hsync] at ht
  exact hstep t e' p ⟨(h.of_syncIfTrained hdistinct hsync).tidy, ht.booted.hasReadyBackend⟩ hrun

theorem Placed.of_setTraining {moves : List Value} {settings : TrainingSettings}
    {e e' : Engine α} (h : e.Placed moves) (hdistinct : Distinct IsText e.neurons)
    (hrun : (setTraining settings).outcome e = (.ok (), e')) : e'.Placed [] := by
  rcases outcome_bind_eq_ok hrun with ⟨_, t, hsync, hrun⟩
  have ht := (h.of_syncIfTrained hdistinct hsync).toCurrent.of_undisturbed
    (equipping_undisturbed.retrained t settings)
  rw [retrain, outcome_modify_bind, outcome_get_bind] at hrun
  split at hrun
  · rcases outcome_bind_eq_ok hrun with ⟨c, u, hcompile, hrun⟩
    cases hrun
    exact ht.placed_of_compile hcompile
  · next hnone =>
    cases hrun
    exact ht.placed_of_not_compiled (Option.not_isSome_iff_eq_none.mp hnone) []

/-- An engine that is initialised has compiled the graph in the order of its stores. -/
theorem placed_of_init {e e' : Engine α} {p : Projection} (htidy : e.neuronStore.Tidy)
    (h : init.outcome e = (.ok p, e')) : e'.Placed [] := by
  rcases outcome_bind_eq_ok h with ⟨_, t, hequip, h⟩
  rcases outcome_bind_eq_ok h with ⟨_, u, hread, h⟩
  rcases outcome_bind_eq_ok h with ⟨c, v, hcompile, h⟩
  have hsame := equipping_undisturbed.equip e
  rw [after_of_outcome hequip] at hsame
  have ht : t.Neat := ⟨hsame.neuronStore.symm ▸ htidy, (booted_of_equip hequip).hasReadyBackend⟩
  have hu : u.Current := by
    rcases outcome_bind_eq_ok hread with ⟨_, w, hrefresh, hread⟩
    rcases outcome_refresh_eq_ok hrefresh with ⟨ns, ss, hns, hss, rfl⟩
    rw [outcome_get_bind] at hread
    split at hread
    · rcases outcome_bind_eq_ok hread with ⟨_, x, hseed, hread⟩
      have hx := neat_seedDefaultNetwork (t.withCache ns ss) ⟨ht.tidy, ht.ready⟩
      rw [after_of_outcome hseed] at hx
      rcases outcome_refresh_eq_ok hread with ⟨ns', ss', hns', hss', rfl⟩
      exact ⟨hns', hss', hx.tidy⟩
    · cases hread
      exact ⟨hns, hss, ht.tidy⟩
  have hprojected : e' = v := by
    have hsame := respects_projection (R := Eq) v
    rw [after_of_outcome h] at hsame
    exact hsame.symm
  rw [hprojected]
  exact hu.placed_of_compile hcompile

theorem running_fixes_compiled : Running (Fixes (compiled (α := α))) where
  staged _ _ := rfl
  audience _ _ := rfl
  forward _ := compiled_onBackend _
  supervise targets :=
    respects_get_bind fun e =>
      ((compiled_onBackend _).bind fun _ => compiled_keepTargets targets) e
  setTargets targets := (compiled_onBackend _).bind fun _ => compiled_keepTargets targets

omit [Scalar α] in
theorem compiled_takeRate (rate : Option (Except Fault Float)) :
    Respects (Fixes compiled) (takeRate (α := α) rate) := by
  cases rate with
  | none => exact respects_pure ()
  | some r => exact (respects_of r).bind fun _ => respects_modify fun _ => rfl

end Engine
end Plexus
