import Plexus.Engine.Sync
import Plexus.Proofs.Compiled.Index
import Plexus.Proofs.Engine.Coherence
import Plexus.Proofs.Graph.Document

/-!
# Writing parameters back

In a coherent engine, writing the parameters of the backend back never fails.  Each neuron
gets the bias of its slot and each synapse the weight of its cell, so synapses that share a
cell get the same weight; the graph that they make up stays as it was.
-/

namespace Plexus
namespace Engine

open Attempt
open Value (IdClass)

variable {α β : Type} {P : Value → Prop}

theorem outcome_onNeurons {step : Attempt (Store Neuron) β} {e : Engine α} {s t : Store Neuron}
    {r : Except Fault β} (hs : e.neuronStore = s) (h : step.outcome s = (r, t)) :
    (onNeurons step).outcome e = (r, { e with neuronStore := t }) := by
  rw [onNeurons, outcome_onPart, hs, h]

theorem outcome_onSynapses {step : Attempt (Store Synapse) β} {e : Engine α}
    {s t : Store Synapse} {r : Except Fault β} (hs : e.synapseStore = s)
    (h : step.outcome s = (r, t)) :
    (onSynapses step).outcome e = (r, { e with synapseStore := t }) := by
  rw [onSynapses, outcome_onPart, hs, h]

namespace Fits

variable {c : Compiled α} {rows : Nat} {a : Arena α} {b : Backend α} {e : Engine α}

/-- A cached neuron has a known activation tag, which is that of its slot. -/
theorem activation_eq (h : e.Fits c rows a b) {i : Nat} {n : Neuron}
    (hn : e.neurons[i]? = some n) :
    ∃ f, Activation.ofValue n.activation = .ok f ∧ a.codes[i]? = some f := by
  have htag : (e.neurons.map Neuron.activation)[i]? = some n.activation := by
    rw [List.getElem?_map, hn, Option.map_some]
  rcases mapM_getElem? h.tags htag with ⟨f, hf, hcode⟩
  refine ⟨f, hf, ?_⟩
  rw [← Array.getElem?_toList]
  exact hcode

end Fits

theorem indexOf_eq_ok {c : Compiled α} {id : Value} {i : Nat} (hid : id.isScalar = true)
    (hi : c.index.find? id = some i) :
    c.indexOf id = .ok i := by
  rw [Compiled.indexOf, hid, hi]
  rfl

theorem find?_of_indexOf_eq_ok {c : Compiled α} {id : Value} {i : Nat} (h : c.indexOf id = .ok i) :
    c.index.find? id = some i := by
  rw [Compiled.indexOf] at h
  split at h
  · cases h
  · split at h
    · next hfound =>
      cases h
      exact hfound
    · cases h

variable [Scalar α]

/-!
## Single neurons and synapses
-/

/-- A neuron with the bias of its slot, where that differs from its own. -/
def rebiased (c : Compiled α) (biases : Array α) (n : Neuron) : Neuron :=
  match c.index.find? n.id with
  | none => n
  | some i =>
      let bias := Scalar.toFloat (Scalar.cell biases i)
      if bias != n.bias then { n with bias } else n

/-- A synapse with the weight of its cell, where that differs from its own. -/
def reweighted (c : Compiled α) (weights : Array α) (s : Synapse) : Synapse :=
  match Compiled.cellOf? c.index c.size s with
  | none => s
  | some i =>
      let weight := Scalar.toFloat (Scalar.cell weights i)
      if weight != s.weight then { s with weight } else s

theorem rebiased_parts (c : Compiled α) (biases : Array α) (n : Neuron) :
    (rebiased c biases n).id = n.id ∧ (rebiased c biases n).kind = n.kind ∧
      (rebiased c biases n).activation = n.activation := by
  unfold rebiased
  split
  · exact ⟨rfl, rfl, rfl⟩
  · dsimp only
    split <;> exact ⟨rfl, rfl, rfl⟩

@[simp] theorem rebiased_id (c : Compiled α) (biases : Array α) (n : Neuron) :
    (rebiased c biases n).id = n.id :=
  (rebiased_parts c biases n).1

@[simp] theorem rebiased_kind (c : Compiled α) (biases : Array α) (n : Neuron) :
    (rebiased c biases n).kind = n.kind :=
  (rebiased_parts c biases n).2.1

@[simp] theorem rebiased_activation (c : Compiled α) (biases : Array α) (n : Neuron) :
    (rebiased c biases n).activation = n.activation :=
  (rebiased_parts c biases n).2.2

theorem reweighted_ends (c : Compiled α) (weights : Array α) (s : Synapse) :
    (reweighted c weights s).id = s.id ∧ (reweighted c weights s).source = s.source ∧
      (reweighted c weights s).target = s.target := by
  unfold reweighted
  split
  · exact ⟨rfl, rfl, rfl⟩
  · dsimp only
    split <;> exact ⟨rfl, rfl, rfl⟩

@[simp] theorem reweighted_id (c : Compiled α) (weights : Array α) (s : Synapse) :
    (reweighted c weights s).id = s.id :=
  (reweighted_ends c weights s).1

@[simp] theorem reweighted_source (c : Compiled α) (weights : Array α) (s : Synapse) :
    (reweighted c weights s).source = s.source :=
  (reweighted_ends c weights s).2.1

@[simp] theorem reweighted_target (c : Compiled α) (weights : Array α) (s : Synapse) :
    (reweighted c weights s).target = s.target :=
  (reweighted_ends c weights s).2.2

theorem outcome_syncNeuron {c : Compiled α} {xs ys : List Neuron} {n : Neuron} {i : Nat}
    {f : Activation} {e : Engine α} (hP : IdClass P) (biases : Array α)
    (hstore : e.neuronStore = .keyed (.ofList (xs ++ n :: ys)))
    (hdistinct : Distinct P (xs ++ n :: ys)) (hi : c.index.find? n.id = some i)
    (hf : Activation.ofValue n.activation = .ok f) :
    ∃ w, (syncNeuron c biases n).outcome e =
      (.ok (), { e with
        neuronStore := .keyed (.ofList (xs ++ rebiased c biases n :: ys)), written := w }) := by
  have hid : n.id.isScalar = true := (hP.isKey _ (hdistinct.named n (by simp))).1
  rw [syncNeuron, indexOf_eq_ok hid hi, outcome_of_ok_bind, rebiased, hi]
  dsimp only
  by_cases hbias : (Scalar.toFloat (Scalar.cell biases i) != n.bias) = true
  · refine ⟨e.written ++ [n.id], ?_⟩
    have hupdate := Store.outcome_update (d := n)
      (e := { n with bias := Scalar.toFloat (Scalar.cell biases i) }) hP hdistinct rfl
    rw [if_pos hbias, if_pos hbias, Neuron.make_eq_ok hf, outcome_of_ok_bind,
      outcome_bind_of_ok (outcome_onNeurons hstore hupdate), outcome_modify]
  · refine ⟨e.written, ?_⟩
    rw [if_neg hbias, if_neg hbias, ← hstore]
    rfl

theorem outcome_syncSynapse {xs ys : List Synapse} {s : Synapse} {e : Engine α}
    (hP : IdClass P) (c : Compiled α) (weights : Array α)
    (hstore : e.synapseStore = .keyed (.ofList (xs ++ s :: ys)))
    (hdistinct : Distinct P (xs ++ s :: ys)) (hends : P s.source ∧ P s.target) :
    (syncSynapse c weights s).outcome e =
      (.ok (), { e with
        synapseStore := .keyed (.ofList (xs ++ reweighted c weights s :: ys)) }) := by
  have hscalar : (s.source.isScalar && s.target.isScalar) = true := by
    rw [(hP.isKey _ hends.1).1, (hP.isKey _ hends.2).1]
    rfl
  rw [syncSynapse, hscalar]
  simp only [Bool.not_true, Bool.false_eq_true, if_false]
  rw [reweighted]
  cases hcell : Compiled.cellOf? c.index c.size s with
  | none =>
      dsimp only
      rw [← hstore]
      rfl
  | some i =>
      dsimp only
      by_cases hweight : (Scalar.toFloat (Scalar.cell weights i) != s.weight) = true
      · have hupdate := Store.outcome_update (d := s)
          (e := { s with weight := Scalar.toFloat (Scalar.cell weights i) }) hP hdistinct rfl
        rw [if_pos hweight, if_pos hweight, outcome_onSynapses hstore hupdate]
      · rw [if_neg hweight, if_neg hweight, ← hstore]
        rfl

/-!
## The whole graph
-/

/-- The engine with the parameters of a network in its stores and its cache. -/
def synced (c : Compiled α) (weights biases : Array α) (e : Engine α) : Engine α :=
  { e with
    neuronStore := .keyed (.ofList (e.neurons.map (rebiased c biases)))
    synapseStore := .keyed (.ofList (e.synapses.map (reweighted c weights)))
    neurons := e.neurons.map (rebiased c biases)
    written := []
    synapses := e.synapses.map (reweighted c weights)
    trained := false }

theorem distinct_rebiased {c : Compiled α} {biases : Array α} {xs ys : List Neuron}
    (h : Distinct P (xs ++ ys)) :
    Distinct P (xs.map (rebiased c biases) ++ ys) := by
  apply h.of_map_id
  simp [Identified.id, Function.comp_def]

theorem distinct_reweighted {c : Compiled α} {weights : Array α} {xs ys : List Synapse}
    (h : Distinct P (xs ++ ys)) :
    Distinct P (xs.map (reweighted c weights) ++ ys) := by
  apply h.of_map_id
  simp [Identified.id, Function.comp_def]

/-- Whether a compiled graph has an index for every cached neuron, and all their tags are known. -/
def Placeable (c : Compiled α) (e : Engine α) : Prop :=
  ∀ n ∈ e.neurons, (∃ i, c.index.find? n.id = some i) ∧
    ∃ f, Activation.ofValue n.activation = .ok f

omit [Scalar α] in
theorem placeable_of_indexes {c : Compiled α} {e : Engine α}
    (h : Compiled.Indexes e.neurons c) (hP : IdClass P) (hdistinct : Distinct P e.neurons)
    (hknown : ∀ n ∈ e.neurons, ∃ f, Activation.ofValue n.activation = .ok f) :
    e.Placeable c :=
  fun n hn => ⟨⟨_, (h.place hP hdistinct hn).1⟩, hknown n hn⟩

omit [Scalar α] in
theorem Fits.known {c : Compiled α} {rows : Nat} {a : Arena α} {b : Backend α} {e : Engine α}
    (h : e.Fits c rows a b) :
    ∀ n ∈ e.neurons, ∃ f, Activation.ofValue n.activation = .ok f := by
  intro n hn
  rcases List.mem_iff_getElem?.mp hn with ⟨i, hi⟩
  rcases h.activation_eq hi with ⟨f, hf, -⟩
  exact ⟨f, hf⟩

theorem outcome_syncNeurons {c : Compiled α} {e : Engine α} (hP : IdClass P)
    (hs : e.Stocked P e.neurons e.synapses) (h : e.Placeable c) (biases : Array α) :
    ∃ w, (e.neurons.forM (syncNeuron c biases)).outcome e =
      (.ok (), { e with
        neuronStore := .keyed (.ofList (e.neurons.map (rebiased c biases))), written := w }) := by
  have hloop := outcome_forM_of_step (f := syncNeuron c biases) (l := e.neurons) (s := e)
    (I := fun done rest t => done ++ rest = e.neurons ∧ ∃ w, t = { e with
      neuronStore := .keyed (.ofList (done.map (rebiased c biases) ++ rest)), written := w }) ?_ ?_
  · rcases hloop with ⟨t, hrun, -, w, rfl⟩
    rw [List.append_nil] at hrun
    exact ⟨w, hrun⟩
  · intro done n rest t hn hI
    rcases hI with ⟨hsplit, w, rfl⟩
    rcases h n hn with ⟨⟨i, hi⟩, f, hf⟩
    have hdistinct : Distinct P (done.map (rebiased c biases) ++ n :: rest) := by
      apply distinct_rebiased
      rw [hsplit]
      exact hs.neurons
    rcases outcome_syncNeuron (e := { e with
      neuronStore := .keyed (.ofList (done.map (rebiased c biases) ++ n :: rest)), written := w })
      hP biases rfl hdistinct hi hf with ⟨w', hrun⟩
    refine ⟨_, hrun, ?_, w', ?_⟩
    · rw [List.append_assoc]
      exact hsplit
    · simp only [List.map_append, List.map_cons, List.map_nil, List.append_assoc,
        List.cons_append, List.nil_append]
  · refine ⟨rfl, e.written, ?_⟩
    rw [List.map_nil, List.nil_append, ← hs.neuronStore]

theorem outcome_syncSynapses {ss : List Synapse} {e : Engine α} (hP : IdClass P)
    (hstore : e.synapseStore = .keyed (.ofList ss)) (hdistinct : Distinct P ss)
    (hends : ∀ s ∈ ss, P s.source ∧ P s.target) (c : Compiled α) (weights : Array α) :
    (ss.forM (syncSynapse c weights)).outcome e =
      (.ok (), { e with
        synapseStore := .keyed (.ofList (ss.map (reweighted c weights))) }) := by
  have hloop := outcome_forM_of_step (f := syncSynapse c weights) (l := ss) (s := e)
    (I := fun done rest t => done ++ rest = ss ∧ t = { e with
      synapseStore := .keyed (.ofList (done.map (reweighted c weights) ++ rest)) }) ?_ ?_
  · rcases hloop with ⟨t, hrun, -, rfl⟩
    rw [List.append_nil] at hrun
    exact hrun
  · intro done s rest t hs hI
    rcases hI with ⟨hsplit, rfl⟩
    have hdistinct' : Distinct P (done.map (reweighted c weights) ++ s :: rest) := by
      apply distinct_reweighted
      rw [hsplit]
      exact hdistinct
    have hrun := outcome_syncSynapse (e := { e with
      synapseStore := .keyed (.ofList (done.map (reweighted c weights) ++ s :: rest)) })
      hP c weights rfl hdistinct' (hends s hs)
    refine ⟨_, hrun, ?_, ?_⟩
    · rw [List.append_assoc]
      exact hsplit
    · simp only [List.map_append, List.map_cons, List.map_nil, List.append_assoc,
        List.cons_append, List.nil_append]
  · refine ⟨rfl, ?_⟩
    rw [List.map_nil, List.nil_append, ← hstore]

theorem stocked_synced {e : Engine α} (hs : e.Stocked P e.neurons e.synapses) (c : Compiled α)
    (weights biases : Array α) :
    (e.synced c weights biases).Stocked P (e.neurons.map (rebiased c biases))
      (e.synapses.map (reweighted c weights)) where
  neuronStore := rfl
  synapseStore := rfl
  neurons := hs.neurons.of_map_id (by simp [Identified.id, Function.comp_def])
  synapses := hs.synapses.of_map_id (by simp [Identified.id, Function.comp_def])
  ends := by
    intro s hs'
    rcases List.mem_map.mp hs' with ⟨d, hd, rfl⟩
    rw [reweighted_source, reweighted_target]
    exact hs.ends d hd

/-- Parameters that can be read are put into the stores and into the cache. -/
theorem outcome_syncWeights_of_placeable {c : Compiled α} {weights biases : Array α}
    {b : Backend α} {e : Engine α} (hP : IdClass P) (hs : e.Stocked P e.neurons e.synapses)
    (hc : e.compiled = some c) (h : e.Placeable c) (hb : e.backend = some b)
    (hread : (onBackend Backend.readParameters).outcome e = (.ok (weights, biases), e)) :
    syncWeights.outcome e = (.ok (), e.synced c weights biases) := by
  rcases outcome_syncNeurons hP hs h biases with ⟨w, hneurons⟩
  have hsynapses := outcome_syncSynapses (e := { e with
    neuronStore := .keyed (.ofList (e.neurons.map (rebiased c biases))), written := w })
    hP hs.synapseStore hs.synapses hs.ends c weights
  have hstocked : Stocked P (e.neurons.map (rebiased c biases))
      (e.synapses.map (reweighted c weights)) { e with
        neuronStore := .keyed (.ofList (e.neurons.map (rebiased c biases))), written := w
        synapseStore := .keyed (.ofList (e.synapses.map (reweighted c weights))) } := by
    have hsynced := stocked_synced hs c weights biases
    exact ⟨rfl, rfl, hsynced.neurons, hsynced.synapses, hsynced.ends⟩
  simp only [syncWeights, outcome_get_bind, hc, hb, Option.isNone_some, Bool.false_eq_true,
    if_false]
  rw [outcome_bind_of_ok hread, outcome_bind_of_ok hneurons, outcome_bind_of_ok hsynapses,
    outcome_bind_of_ok (outcome_refresh hstocked), outcome_modify]
  rfl

/-- Writing parameters back never fails and leaves those of the network in the stores. -/
theorem outcome_syncWeights {c : Compiled α} {rows : Nat} {a : Arena α} {b : Backend α}
    {e : Engine α} (hP : IdClass P) (hs : e.Stocked P e.neurons e.synapses)
    (hc : e.compiled = some c) (h : e.Fits c rows a b) :
    syncWeights.outcome e = (.ok (), e.synced c a.weights a.biases) := by
  have hread : (onBackend Backend.readParameters).outcome e = (.ok (a.weights, a.biases), e) := by
    rw [outcome_onBackend h.backend, h.holds.readParameters_eq, ← h.backend]
  have hplaceable := placeable_of_indexes h.toIndexes hP hs.neurons h.known
  exact outcome_syncWeights_of_placeable hP hs hc hplaceable h.backend hread

/-- Written back, the graph is still the one that was compiled. -/
theorem coherent_synced {c : Compiled α} {e : Engine α} (h : e.Coherent P)
    (weights biases : Array α) :
    (e.synced c weights biases).Coherent P where
  stocked := stocked_synced h.stocked c weights biases
  equipped := ⟨h.equipped.backend, h.equipped.rate⟩
  fits := by
    intro d hd
    rcases h.fits d hd with ⟨rows, a, b, hfits⟩
    refine ⟨rows, a, b, hfits.toIndexes.of_ids ?_, hfits.backend, hfits.holds, hfits.backendSize,
      hfits.batch, ?_, hfits.staged, hfits.targets⟩
    · simp [synced, Function.comp_def]
    · rw [← hfits.tags]
      simp [synced, Function.comp_def]

/--
What comes before a change of the graph: parameters that were trained are written back, and
an engine without any is left alone.
-/
def Saved (e e' : Engine α) : Prop :=
  e.trained = false ∧ e' = e ∨
    e.trained = true ∧ ∃ c weights biases, e.compiled = some c ∧
      e.parameters = some (weights, biases) ∧ e' = e.synced c weights biases

theorem Saved.coherent {e e' : Engine α} (hsaved : e.Saved e') (h : e.Coherent P) :
    e'.Coherent P := by
  rcases hsaved with ⟨-, rfl⟩ | ⟨-, c, weights, biases, -, -, rfl⟩
  · exact h
  · exact coherent_synced h weights biases

theorem Saved.eq_of_untrained {e e' : Engine α} (h : e.Saved e')
    (huntrained : e.trained = false) : e' = e := by
  rcases h with ⟨-, heq⟩ | ⟨htrained, -⟩
  · exact heq
  · rw [huntrained] at htrained
    cases htrained

/-- Writing back changes no identifiers. -/
theorem Saved.ids {e e' : Engine α} (h : e.Saved e') :
    e'.neurons.map Neuron.id = e.neurons.map Neuron.id := by
  rcases h with ⟨-, rfl⟩ | ⟨-, c, weights, biases, -, -, rfl⟩
  · rfl
  · simp [synced, Function.comp_def]

theorem Saved.compiled {e e' : Engine α} (h : e.Saved e') : e'.compiled = e.compiled := by
  rcases h with ⟨-, rfl⟩ | ⟨-, c, weights, biases, -, -, rfl⟩
  · rfl
  · rfl

/-- Without a compiled graph there is nothing to write back; with one, it never fails. -/
theorem syncIfTrained_cases {e : Engine α} (hP : IdClass P) (h : e.Coherent P) :
    (e.compiled = none ∧ ∃ f, syncIfTrained.outcome e = (.error f, e)) ∨
      ∃ e', e.Saved e' ∧ e'.Coherent P ∧ syncIfTrained.outcome e = (.ok (), e') := by
  cases htrained : e.trained with
  | false =>
      have hrun : syncIfTrained.outcome e = (.ok (), e) := by
        simp only [syncIfTrained, outcome_get_bind, htrained, Bool.false_eq_true, if_false,
          outcome_pure]
      exact Or.inr ⟨e, Or.inl ⟨htrained, rfl⟩, h, hrun⟩
  | true =>
      have hsync : syncIfTrained.outcome e = syncWeights.outcome e := by
        simp only [syncIfTrained, outcome_get_bind, htrained, if_true]
      cases hc : e.compiled with
      | none =>
          apply Or.inl
          refine ⟨rfl, .nothingCompiled, ?_⟩
          rw [hsync, syncWeights, outcome_get_bind, hc]
          rfl
      | some c =>
          rcases h.fits c hc with ⟨rows, a, b, hfits⟩
          have hsaved : e.Saved (e.synced c a.weights a.biases) :=
            Or.inr ⟨htrained, c, _, _, hc, hfits.parameters_eq, rfl⟩
          have hrun := hsync.trans (outcome_syncWeights hP h.stocked hc hfits)
          exact Or.inr ⟨_, hsaved, hsaved.coherent h, hrun⟩

/-- A step after writing back runs on the saved engine, or nothing has happened. -/
theorem outcome_syncIfTrained_bind {e : Engine α} (hP : IdClass P) (h : e.Coherent P)
    (next : Unit → Attempt (Engine α) β) :
    (∃ f, (syncIfTrained >>= next).outcome e = (.error f, e)) ∨
      ∃ e', e.Saved e' ∧ e'.Coherent P ∧
        (syncIfTrained >>= next).outcome e = (next ()).outcome e' := by
  rcases syncIfTrained_cases hP h with ⟨-, f, hrun⟩ | ⟨e', hsaved, he', hrun⟩
  · exact Or.inl ⟨f, outcome_bind_of_error hrun next⟩
  · exact Or.inr ⟨e', hsaved, he', outcome_bind_of_ok hrun next⟩

end Engine
end Plexus
