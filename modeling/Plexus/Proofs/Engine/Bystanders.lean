import Plexus.Proofs.Engine.Deletion
import Plexus.Proofs.Engine.Idle
import Plexus.Proofs.Engine.Meaning
import Plexus.Proofs.Numeric.Loss

/-!
# Neurons that a change does not concern

Every change compiles the graph anew, into a matrix of another size and with other indices.  As
long as the network has not been trained, it has just the parameters of the stored graph, before
the change and after it.  So a change that brings in or takes away only what leads to no other
neuron leaves what these sum up as it was: in the larger of the two matrices the cells that the
smaller one does not have are zero.
-/

namespace Plexus

namespace Engine

open Attempt
open Value (IdClass IsText)

/-!
## Graphs with fewer neurons
-/

/--
What is left of a graph when neurons are taken out of it that lead to none of the others, which
are joined as before.
-/
structure Trims (keep : Neuron → Bool) (ns : List Neuron) (ss : List Synapse)
    (ns' : List Neuron) (ss' : List Synapse) : Prop where
  neurons : ns' = ns.filter keep
  kept : ∀ u ∈ ns', ∀ v ∈ ns',
    Synapse.lastJoining ss' u.id v.id = Synapse.lastJoining ss u.id v.id
  dropped : ∀ u ∈ ns, keep u = false → ∀ v ∈ ns', Synapse.lastJoining ss u.id v.id = none

theorem Trims.subset {keep : Neuron → Bool} {ns ns' : List Neuron} {ss ss' : List Synapse}
    (h : Trims keep ns ss ns' ss') : ns' ⊆ ns := by
  rw [h.neurons]
  exact List.filter_subset_self ns

/-- Terms that are zero do not count in a sum. -/
theorem sum_map_filter_of_zero {γ δ : Type} [AddMonoid δ] {keep : γ → Bool} {f : γ → δ}
    {xs : List γ} (h : ∀ x ∈ xs, keep x = false → f x = 0) :
    ((xs.filter keep).map f).sum = (xs.map f).sum := by
  induction xs with
  | nil => rfl
  | cons x xs ih =>
      have hrest := ih fun y hy => h y (List.mem_cons_of_mem x hy)
      rw [List.map_cons, List.sum_cons]
      cases hkeep : keep x with
      | true => rw [List.filter_cons_of_pos hkeep, List.map_cons, List.sum_cons, hrest]
      | false =>
          rw [List.filter_cons_of_neg (by rw [hkeep]; decide), hrest,
            h x List.mem_cons_self hkeep, zero_add]

/-- A neuron sums up the same in a graph with fewer neurons, if it has the same input. -/
theorem Trims.excitation_eq {α : Type} [Scalar α] [CommSemiring α] [Exact α]
    {keep : Neuron → Bool} {e e' : Engine α} {c c' : Compiled α} {inputs inputs' : Array α}
    {r : Nat} {v : Neuron} (h : Trims keep e.neurons e.synapses e'.neurons e'.synapses)
    (hv : v ∈ e'.neurons)
    (hinputs : ∀ u ∈ e'.neurons, Scalar.cell inputs (r * e.neurons.length + c.place u.id) =
      Scalar.cell inputs' (r * e'.neurons.length + c'.place u.id)) :
    e'.excitation c' inputs' r v = e.excitation c inputs r v := by
  have hterms : (e'.neurons.map fun u =>
      Compiled.weightOf (Synapse.lastJoining e'.synapses u.id v.id) *
        Scalar.cell inputs' (r * e'.neurons.length + c'.place u.id)) =
      (e.neurons.filter keep).map fun u =>
        Compiled.weightOf (Synapse.lastJoining e.synapses u.id v.id) *
          Scalar.cell inputs (r * e.neurons.length + c.place u.id) := by
    rw [← h.neurons]
    apply List.map_congr_left
    intro u hu
    rw [h.kept u hu v hv, hinputs u hu]
  rw [excitation, hterms, sum_map_filter_of_zero, excitation]
  intro u hu hdropped
  rw [h.dropped u hu hdropped v hv, Compiled.weightOf, Exact.zero_eq, zero_mul]

end Engine

/-!
## Networks that have not been trained
-/

/-- Whether an action trains the network. -/
def Action.teaches {α : Type} : Action α → Bool
  | .trainTick .. => true
  | _ => false

namespace Engine

open Attempt
open Value (IdClass IsText)

section Untaught

variable {α : Type} [Scalar α] {P : Value → Prop}

/-- A reachable engine that no training tick was asked of since its graph was compiled last. -/
inductive Untaught (P : Value → Prop) : Engine α → Prop
  | fresh {e : Engine α} (h : e.Reachable P) (hfresh : Fresh P e) : Untaught P e
  | step {e : Engine α} (h : Untaught P e) (a : Action α) (ha : a.Admissible P e)
      (hteaches : a.teaches = false) : Untaught P (a.perform.after e)

theorem Untaught.reachable {e : Engine α} (h : e.Untaught P) : e.Reachable P := by
  induction h with
  | fresh h _ => exact h
  | step _ a ha _ ih => exact .step ih a ha

theorem Startable.untaught {e : Engine α} (hP : IdClass P) (h : e.Startable P)
    (hinit : init.succeeds e = true) :
    (init.after e).Untaught P := by
  rcases h.rebuilt hP hinit with ⟨ns, ss, hrebuilt, hsome⟩
  exact .fresh (.opened h hinit) (hrebuilt.fresh hsome)

/-- A change that succeeds compiles its graph anew, so what was trained before does not matter. -/
theorem Reachable.untaught_after {e : Engine α} {a : Action α} (h : e.Reachable P)
    (hP : IdClass P) (hmutates : a.mutates = true) (ha : a.Admissible P e)
    (hok : a.perform.succeeds e = true) (hsome : (a.perform.after e).compiled.isSome = true) :
    (a.perform.after e).Untaught P :=
  .fresh (h.step a ha) (h.fresh_after hP hmutates ha hok hsome)

theorem Lasting.of_fresh {I : Engine α → Prop} {e : Engine α} (hI : Lasting P I)
    (h : Fresh P e) : I e :=
  hI.rebuilt ⟨h.coherent, h.mirrored, rfl, rfl, rfl⟩

/-- Whatever is done with an engine short of training it keeps what lasts until then. -/
theorem Lasting.after {I : Engine α → Prop} {e : Engine α} {a : Action α} (hP : IdClass P)
    (hI : Lasting P I) (he : e.Coherent P) (ha : a.Admissible P e) (hteaches : a.teaches = false)
    (hold : I e) :
    I (a.perform.after e) := by
  cases htrains : a.trains with
  | false => exact (a.settles hP he ha htrains).lasting hI he hold
  | true =>
      cases a with
      | syncWeights =>
          rcases syncWeights_cases hP he with
            ⟨f, hrun⟩ | ⟨c, weights, biases, hc, hparameters, hrun⟩
          · rw [Action.perform, after_of_outcome hrun]
            exact hold
          · rw [Action.perform, after_of_outcome hrun]
            exact hI.synced he hc hparameters hold
      | trainTick => cases hteaches
      | init | compile | close | addNeuron | addSynapse | deleteNeuron | deleteSynapse
      | updateSynapseWeight | importGraph | exportGraph | injectInput | tick | prepareTraining
      | setTraining | attend => cases htrains

theorem Untaught.lasting {I : Engine α → Prop} {e : Engine α} (hP : IdClass P)
    (hI : Lasting P I) (h : e.Untaught P) : I e := by
  induction h with
  | fresh _ hfresh => exact hI.of_fresh hfresh
  | step h a ha hteaches ih => exact hI.after hP (h.reachable.coherent hP) ha hteaches ih

end Untaught

section Rereadable

variable {α : Type} [Scalar α] [Field α] [ExactField α] [Scalar.Rereadable α] {c : Compiled α}
  {weights biases : Array α}

/-- A neuron that is given the bias that it has been compiled to keeps it. -/
theorem ofFloat_rebiased {n : Neuron} {i : Nat} (hi : c.index.find? n.id = some i)
    (hcell : Scalar.cell biases i = Scalar.ofFloat n.bias) :
    Scalar.ofFloat (rebiased c biases n).bias = (Scalar.ofFloat n.bias : α) := by
  rw [rebiased, hi]
  dsimp only
  split
  · rw [hcell]
    exact ExactField.ofFloat_toFloat_ofFloat n.bias
  · rfl

/-- A synapse that is given the weight that it has been compiled to keeps it. -/
theorem ofFloat_reweighted {s : Synapse} {k : Nat}
    (hk : Compiled.cellOf? c.index c.size s = some k)
    (hcell : Scalar.cell weights k = Scalar.ofFloat s.weight) :
    Scalar.ofFloat (reweighted c weights s).weight = (Scalar.ofFloat s.weight : α) := by
  rw [reweighted, hk]
  dsimp only
  split
  · rw [hcell]
    exact ExactField.ofFloat_toFloat_ofFloat s.weight
  · rfl

/-- Parameters that are put into a graph which has them already stay those of the graph. -/
theorem Embodies.synced {e : Engine α} (h : e.Embodies weights biases) (he : e.Coherent IsText)
    (hc : e.compiled = some c) :
    (e.synced c weights biases).Embodies weights biases := by
  rcases he.fits c hc with ⟨rows, a, b, hfits⟩
  have hdistinct := he.stocked.neurons
  have hneuron : ∀ {i : Nat} {v : Neuron}, (e.synced c weights biases).neurons[i]? = some v →
      ∃ u, e.neurons[i]? = some u ∧ c.index.find? u.id = some i ∧ rebiased c biases u = v := by
    intro i v hv
    have hmap : (e.neurons.map (rebiased c biases))[i]? = some v := hv
    rw [List.getElem?_map] at hmap
    rcases Option.map_eq_some_iff.mp hmap with ⟨u, hu, huv⟩
    exact ⟨u, hu, hfits.find?_id Value.idClass_isText hdistinct hu, huv⟩
  constructor
  · intro i v hv
    rcases hneuron hv with ⟨u, hu, hi, rfl⟩
    rw [ofFloat_rebiased hi (h.bias i u hu)]
    exact h.bias i u hu
  · intro i j u' v' hu' hv'
    rcases hneuron hu' with ⟨u, hu, hi, rfl⟩
    rcases hneuron hv' with ⟨v, hv, hj, rfl⟩
    have hcell := h.weight i j u v hu hv
    have hlength : (e.synced c weights biases).neurons.length = e.neurons.length :=
      List.length_map _
    have hlast : Synapse.lastJoining (e.synced c weights biases).synapses u.id v.id =
        (Synapse.lastJoining e.synapses u.id v.id).map (reweighted c weights) :=
      Synapse.lastJoining_map (fun s => by simp [Synapse.joins]) e.synapses
    rw [hlength, rebiased_id, rebiased_id, hlast, hcell]
    cases hs : Synapse.lastJoining e.synapses u.id v.id with
    | none => rfl
    | some s =>
        rcases Synapse.mem_of_lastJoining hs with ⟨hmem, hjoins⟩
        have hends := he.stocked.ends s hmem
        have htext : u.id.IsText := hdistinct.named u (List.mem_of_getElem? hu)
        have htext' : v.id.IsText := hdistinct.named v (List.mem_of_getElem? hv)
        rcases (Synapse.joins_iff hends.1 hends.2 htext htext').mp hjoins with ⟨hsource, htarget⟩
        have hk : Compiled.cellOf? c.index c.size s = some (j * e.neurons.length + i) := by
          rw [Compiled.cellOf?, hsource, htarget, hi, hj, hfits.size]
        rw [hs] at hcell
        exact (ofFloat_reweighted hk hcell).symm

/--
Whether an engine has not been trained, and its network has just the parameters of its graph if
they are held in single precision.
-/
structure Pristine (e : Engine α) : Prop where
  untrained : e.trained = false
  embodies : ∀ weights biases, e.training.basePrecision = .fp32 →
    e.parameters = some (weights, biases) → e.Embodies weights biases

omit [Field α] [ExactField α] [Scalar.Rereadable α] in
theorem Pristine.of_calm {e e' : Engine α} (h : e.Pristine) (hcalm : e.Calm e') :
    e'.Pristine where
  untrained := hcalm.trained.trans h.untrained
  embodies := by
    intro weights biases hprecision hparameters
    rw [hcalm.training] at hprecision
    rw [hcalm.parameters] at hparameters
    exact (h.embodies weights biases hprecision hparameters).congr hcalm.neurons hcalm.synapses

omit [Field α] [ExactField α] [Scalar.Rereadable α] in
theorem Rebuilt.pristine {ns : List Neuron} {ss : List Synapse} {settings : TrainingSettings}
    {e : Engine α} (h : e.Rebuilt IsText ns ss settings) (hsome : e.compiled.isSome = true) :
    e.Pristine where
  untrained := h.mirrored.untrained hsome
  embodies := fun _ _ => h.mirrored.embodies h.coherent hsome

theorem lasting_pristine :
    Lasting IsText fun e : Engine α => e.compiled.isSome = true → e.Pristine where
  rebuilt := Rebuilt.pristine
  closed := by
    intro e hc hsome
    rw [hc] at hsome
    cases hsome
  calm := by
    intro e e' hcalm h hsome
    rw [hcalm.compiled] at hsome
    exact (h hsome).of_calm hcalm
  synced := by
    intro e c weights biases he hc hparameters h hsome
    refine ⟨rfl, fun weights' biases' hprecision hparameters' => ?_⟩
    -- Writing back leaves the network alone, and so its parameters are those from before.
    have hsame : e.parameters = some (weights', biases') := hparameters'
    rw [hparameters] at hsame
    cases hsame
    exact ((h hsome).embodies weights biases hprecision hparameters).synced he hc

end Rereadable

end Engine

/-!
## Changes beside the other neurons
-/

namespace Action

variable {α : Type}

/--
Whether an action adds a neuron at which no synapse starts or ends, or a synapse with an end that
is no neuron, or deletes a neuron from which no synapse leads to another one.
-/
def Unrelated (e : Engine α) : Action α → Prop
  | .addNeuron n => ∀ s ∈ e.synapses, Engine.touches n.id s = false
  | .addSynapse s => (e.knows s.source && e.knows s.target) = false
  | .deleteNeuron id => ∀ s ∈ e.synapses, s.source.same id = true →
      ∀ v ∈ e.neurons, s.target.same v.id = true → v.id.same id = true
  | _ => False

/-- Whether an action leaves a neuron in the graph. -/
def spares : Action α → Neuron → Bool
  | .deleteNeuron id, v => !v.id.same id
  | _, _ => true

end Action

namespace Engine

open Attempt
open Value (IdClass IsText)

section Stored

variable {α : Type} [Scalar α] {P : Value → Prop}

variable {e : Engine α} (hP : IdClass P) (he : e.Coherent P) (huntrained : e.trained = false)

include hP he huntrained

/-- A change that an untrained engine does not refuse compiles what it leaves in the stores. -/
theorem rebuilt_of_change {step : Attempt (Engine α) Projection} {ns : List Neuron}
    {ss : List Synapse}
    (hstep : (∃ f, step.outcome e = (.error f, e)) ∨ ∃ neuronStore synapseStore,
      Stocked P ns ss { e with neuronStore, synapseStore } ∧
        step.outcome e = refreshAndCompile.outcome { e with neuronStore, synapseStore })
    (hok : (syncIfTrained >>= fun _ => step).succeeds e = true) :
    ((syncIfTrained >>= fun _ => step).after e).Rebuilt P ns ss e.training ∧
      ((syncIfTrained >>= fun _ => step).after e).compiled.isSome = true := by
  have hsync := outcome_bind_of_ok (outcome_syncIfTrained_of_untrained huntrained) fun _ => step
  rcases outcome_of_succeeds hok with ⟨p, hp⟩
  rcases hstep with ⟨f, hfails⟩ | ⟨neuronStore, synapseStore, hs, hrun⟩
  · rw [hsync, hfails] at hp
    cases hp
  · rcases refreshAndCompile_rebuilds hP hs ⟨he.equipped.backend, he.equipped.rate⟩ with
      ⟨r, e', hrefresh, hrebuilt, hcompiled⟩
    have hdone := hsync.trans (hrun.trans hrefresh)
    rw [hdone] at hp
    rw [after_of_outcome hdone]
    exact ⟨hrebuilt, hcompiled p (congrArg Prod.fst hp)⟩

theorem addNeuron_rebuilds {n : Neuron} (hn : P n.id) (hok : (addNeuron n).succeeds e = true) :
    ((addNeuron n).after e).Rebuilt P (e.neurons ++ [n]) e.synapses e.training ∧
      ((addNeuron n).after e).compiled.isSome = true := by
  refine rebuilt_of_change hP he huntrained ?_ hok
  rcases outcome_createNeuron_cases hP he.stocked hn with ⟨f, hfails⟩ | ⟨neuronStore, hs, hrun⟩
  · exact Or.inl ⟨f, outcome_bind_of_error hfails _⟩
  · exact Or.inr ⟨neuronStore, e.synapseStore, hs, outcome_bind_of_ok hrun _⟩

theorem addSynapse_rebuilds {s : Synapse} (hid : P s.id) (hends : P s.source ∧ P s.target)
    (hok : (addSynapse s).succeeds e = true) :
    ((addSynapse s).after e).Rebuilt P e.neurons (e.synapses ++ [s]) e.training ∧
      ((addSynapse s).after e).compiled.isSome = true := by
  refine rebuilt_of_change hP he huntrained ?_ hok
  rcases outcome_createSynapse_cases hP he.stocked hid hends with
    ⟨f, hfails⟩ | ⟨synapseStore, hs, hrun⟩
  · exact Or.inl ⟨f, outcome_bind_of_error hfails _⟩
  · exact Or.inr ⟨e.neuronStore, synapseStore, hs, outcome_bind_of_ok hrun _⟩

theorem deleteNeuron_rebuilds {id : Value} (hok : (deleteNeuron id).succeeds e = true) :
    ((deleteNeuron id).after e).Rebuilt P (e.neurons.filter fun n => !n.id.same id)
        (detached id e.synapses e.synapses) e.training ∧
      ((deleteNeuron id).after e).compiled.isSome = true :=
  rebuilt_of_change hP he huntrained
    (remove_cases hP (tracked_of_cached he.stocked rfl rfl) id) hok

end Stored

section Trimmed

variable {ns : List Neuron} {ss : List Synapse}

/-- Without a neuron at which no synapse starts, the others are joined as before. -/
theorem trims_addNeuron {n : Neuron} (hns : Distinct IsText (ns ++ [n]))
    (hunrelated : ∀ s ∈ ss, touches n.id s = false) :
    Trims (fun u => !u.id.same n.id) (ns ++ [n]) ss ns ss where
  neurons := by
    have hself : n.id.same n.id = true :=
      (Value.idClass_isText.isKey _ (hns.named n (by simp))).2
    have hapart : ∀ u ∈ ns, (!u.id.same n.id) = true := by
      intro u hu
      have hdiffers : u.id.same n.id = false :=
        (List.pairwise_append.mp hns.apart).2.2 u hu n (by simp)
      rw [hdiffers]
      rfl
    rw [List.filter_append, List.filter_eq_self.mpr hapart,
      List.filter_cons_of_neg (by simp [hself]), List.filter_nil, List.append_nil]
  kept := fun _ _ _ _ => rfl
  dropped := by
    intro u hu hdropped v _
    have hnText : n.id.IsText := hns.named n (by simp)
    have huText : u.id.IsText := hns.named u hu
    rw [Bool.not_eq_false', Value.same_iff_eq huText hnText] at hdropped
    apply Synapse.lastJoining_eq_none
    rw [List.any_eq_false]
    intro s hs hjoins
    have htouches := hunrelated s hs
    rw [touches, Bool.or_eq_false_iff, ← hdropped] at htouches
    rw [Synapse.joins, htouches.1] at hjoins
    cases hjoins

/-- Without a synapse that has an end which is no neuron, the neurons are joined as before. -/
theorem trims_addSynapse {s : Synapse} (hns : Distinct IsText ns)
    (hs : s.source.IsText ∧ s.target.IsText)
    (hunrelated : (ns.any (fun n => n.id.same s.source) &&
      ns.any fun n => n.id.same s.target) = false) :
    Trims (fun _ => true) ns ss ns (ss ++ [s]) where
  neurons := (List.filter_eq_self.mpr fun _ _ => rfl).symm
  kept := by
    intro u hu v hv
    apply Synapse.lastJoining_concat
    rw [← Bool.not_eq_true]
    intro hjoins
    rcases (Synapse.joins_iff hs.1 hs.2 (hns.named u hu) (hns.named v hv)).mp hjoins with
      ⟨hsource, htarget⟩
    have hknown : ∀ n ∈ ns, ∀ id, id = n.id → (ns.any fun n => n.id.same id) = true := by
      rintro n hn _ rfl
      exact List.any_eq_true.mpr ⟨n, hn, (Value.idClass_isText.isKey _ (hns.named n hn)).2⟩
    rw [hknown u hu _ hsource, hknown v hv _ htarget] at hunrelated
    cases hunrelated
  dropped := by
    intro u _ hdropped
    cases hdropped

/-- Without a neuron from which no synapse leads to another one, the others are joined as before. -/
theorem trims_deleteNeuron {id : Value} (hns : Distinct IsText ns)
    (hss : ∀ s ∈ ss, s.source.IsText ∧ s.target.IsText)
    (hunrelated : ∀ s ∈ ss, s.source.same id = true →
      ∀ v ∈ ns, s.target.same v.id = true → v.id.same id = true) :
    Trims (fun n => !n.id.same id) ns ss (ns.filter fun n => !n.id.same id)
      (ss.filter fun s => !touches id s) where
  neurons := rfl
  kept := by
    intro u hu v hv
    rcases List.mem_filter.mp hu with ⟨hu, hukept⟩
    rcases List.mem_filter.mp hv with ⟨hv, hvkept⟩
    apply Synapse.lastJoining_filter
    intro s hs hjoins
    rcases (Synapse.joins_iff (hss s hs).1 (hss s hs).2 (hns.named u hu) (hns.named v hv)).mp
      hjoins with ⟨hsource, htarget⟩
    rw [touches, hsource, htarget, Bool.not_or, Bool.and_eq_true]
    exact ⟨hukept, hvkept⟩
  dropped := by
    intro u hu hdropped v hv
    rcases List.mem_filter.mp hv with ⟨hv, hvkept⟩
    apply Synapse.lastJoining_eq_none
    rw [List.any_eq_false]
    intro s hs hjoins
    have hsource := ((Synapse.joins_iff (hss s hs).1 (hss s hs).2 (hns.named u hu)
      (hns.named v hv)).mp hjoins).1
    rw [Bool.not_eq_false'] at hdropped
    rw [hunrelated s hs (hsource ▸ hdropped) v hv (Bool.and_eq_true_iff.mp hjoins).2] at hvkept
    cases hvkept

end Trimmed

/-!
## Outputs
-/

section Outputs

variable {α : Type} [Scalar α]

/--
Whether two compiled engines that are given the same input for each neuron that both of them hold
have the same output for it too, each at the indices of its own compiled graph.
-/
def Concurs (e : Engine α) (c : Compiled α) (e' : Engine α) (c' : Compiled α) : Prop :=
  ∀ inputs inputs' : Array α, inputs.size = e.neurons.length * e.batch →
    inputs'.size = e'.neurons.length * e.batch →
    (∀ r < e.batch, ∀ v ∈ e.neurons, v ∈ e'.neurons →
      Scalar.cell inputs (r * e.neurons.length + c.place v.id) =
        Scalar.cell inputs' (r * e'.neurons.length + c'.place v.id)) →
    ∃ out out', ((tick (some (.ok inputs))).outcome e).1 = .ok out ∧
      ((tick (some (.ok inputs'))).outcome e').1 = .ok out' ∧
      ∀ r < e.batch, ∀ v ∈ e.neurons, v ∈ e'.neurons →
        ∃ x, out[r * e.neurons.length + c.place v.id]? = some x ∧
          out'[r * e'.neurons.length + c'.place v.id]? = some x

theorem Concurs.symm {e e' : Engine α} {c c' : Compiled α} (hbatch : e'.batch = e.batch)
    (h : e.Concurs c e' c') :
    e'.Concurs c' e c := by
  intro inputs' inputs hinputs' hinputs hsame
  rw [hbatch] at hinputs' hinputs hsame
  have hsame' : ∀ r < e.batch, ∀ v ∈ e.neurons, v ∈ e'.neurons →
      Scalar.cell inputs (r * e.neurons.length + c.place v.id) =
        Scalar.cell inputs' (r * e'.neurons.length + c'.place v.id) :=
    fun r hr v hv hv' => (hsame r hr v hv' hv).symm
  rcases h inputs inputs' hinputs hinputs' hsame' with ⟨out, out', hout, hout', hcells⟩
  refine ⟨out', out, hout', hout, ?_⟩
  rw [hbatch]
  intro r hr v hv' hv
  rcases hcells r hr v hv hv' with ⟨x, hx, hx'⟩
  exact ⟨x, hx', hx⟩

variable {e e' : Engine α} {c c' : Compiled α}

/-- A compiled engine whose network has just the parameters of its graph. -/
structure Enacts (e : Engine α) (c : Compiled α) : Prop where
  coherent : e.Coherent Value.IsText
  compiled : e.compiled = some c
  network : ∃ rows a b, e.Fits c rows a b ∧ e.Embodies a.weights a.biases

theorem Pristine.enacts (h : e.Pristine) (he : e.Coherent IsText)
    (hsome : e.compiled.isSome = true) (hprecision : e.training.basePrecision = .fp32) :
    ∃ c, e.Enacts c := by
  rcases he.exists_fits hsome with ⟨c, rows, a, b, hc, hfits⟩
  exact ⟨c, he, hc, rows, a, b, hfits, h.embodies _ _ hprecision hfits.parameters_eq⟩

/-- What is left of an engine that a change does not concern. -/
structure Spared (a : Action α) (e e' : Engine α) : Prop where
  rebuilt : e'.Rebuilt IsText e'.neurons e'.synapses e.training
  compiled : e'.compiled.isSome = true
  spared : ∀ v ∈ e.neurons, a.spares v = true → v ∈ e'.neurons
  trims : ∃ keep, Trims keep e.neurons e.synapses e'.neurons e'.synapses ∨
    Trims keep e'.neurons e'.synapses e.neurons e.synapses

theorem spared_of_rebuilt {a : Action α} {keep : Neuron → Bool} {ns : List Neuron}
    {ss : List Synapse}
    (h : e'.Rebuilt IsText ns ss e.training ∧ e'.compiled.isSome = true)
    (hspares : ∀ v ∈ e.neurons, a.spares v = true → v ∈ ns)
    (htrims : Trims keep e.neurons e.synapses ns ss ∨ Trims keep ns ss e.neurons e.synapses) :
    Spared a e e' := by
  rcases h with ⟨hrebuilt, hsome⟩
  rw [← hrebuilt.neurons] at hspares
  rw [← hrebuilt.neurons, ← hrebuilt.synapses] at htrims
  exact ⟨⟨hrebuilt.coherent, hrebuilt.mirrored, rfl, rfl, hrebuilt.training⟩, hsome, hspares,
    keep, htrims⟩

theorem spared_of_unrelated {a : Action α} (he : e.Coherent IsText)
    (huntrained : e.trained = false) (ha : a.Admissible IsText e) (hunrelated : a.Unrelated e)
    (hok : a.perform.succeeds e = true) :
    Spared a e (a.perform.after e) := by
  have hP := Value.idClass_isText
  have hs := he.stocked
  cases a with
  | addNeuron n =>
      rw [Action.perform, succeeds_void] at hok
      rw [Action.perform, after_void]
      have hadded := addNeuron_rebuilds hP he huntrained ha hok
      have hneurons := hadded.1.coherent.stocked.neurons
      rw [hadded.1.neurons] at hneurons
      exact spared_of_rebuilt hadded (fun v hv _ => List.mem_append_left _ hv)
        (Or.inr (trims_addNeuron hneurons hunrelated))
  | addSynapse s =>
      rw [Action.perform, succeeds_void] at hok
      rw [Action.perform, after_void]
      exact spared_of_rebuilt (addSynapse_rebuilds hP he huntrained ha.1 ha.2 hok)
        (fun v hv _ => hv) (Or.inl (trims_addSynapse hs.neurons ha.2 hunrelated))
  | deleteNeuron id =>
      rw [Action.perform, succeeds_void] at hok
      rw [Action.perform, after_void]
      have hdeleted := deleteNeuron_rebuilds hP he huntrained hok
      rw [detached_of_cached hs.synapses id rfl] at hdeleted
      exact spared_of_rebuilt hdeleted (fun v hv hspares => List.mem_filter.mpr ⟨hv, hspares⟩)
        (Or.inl (trims_deleteNeuron hs.neurons hs.ends hunrelated))
  | init | compile | close | deleteSynapse | updateSynapseWeight | importGraph | exportGraph
  | syncWeights | injectInput | tick | prepareTraining | trainTick | setTraining | attend =>
      cases hunrelated

variable [Field α] [ExactField α]

/--
A tick succeeds on every input with a cell for each slot of each row.  Its output for a neuron is
the neuron's activation function applied to what the neuron sums up in the stored graph.
-/
theorem Enacts.exists_output (h : e.Enacts c) (inputs : Array α)
    (hinputs : inputs.size = e.neurons.length * e.batch) :
    ∃ out, ((tick (some (.ok inputs))).outcome e).1 = .ok out ∧
      out.size = e.neurons.length * e.batch ∧
      ∀ r < e.batch, ∀ v ∈ e.neurons, ∃ f, Activation.ofValue v.activation = .ok f ∧
        out[r * e.neurons.length + c.place v.id]? =
          some (Scalar.activate f (e.excitation c inputs r v)) := by
  rcases h.network with ⟨rows, a, b, hfits, hembodies⟩
  rw [hfits.batch_eq] at hinputs ⊢
  have hgiven : (some (.ok inputs) : Option (Operand α)).getD (.ok e.staged) = .ok inputs := rfl
  rw [← hfits.size] at hinputs
  have htick := outcome_tick h.compiled hfits hgiven hinputs
  rw [hfits.size] at htick
  refine ⟨_, congrArg Prod.fst htick, Arena.size_output_forward _ _ _ _, ?_⟩
  intro r hr v hv
  have hplace := (hfits.place Value.idClass_isText h.coherent.stocked.neurons hv).2
  rcases hfits.activation_eq hplace with ⟨f, hf, hcode⟩
  have hslot : c.place v.id < e.neurons.length := (List.getElem?_eq_some_iff.mp hplace).1
  refine ⟨f, hf, ?_⟩
  rw [Arena.getElem?_output_forward a inputs hr hslot, Arena.response,
    hembodies.preactivation_eq h.coherent hfits hplace, Arena.codeAt, hcode, Option.getD_some]

/-- Taking neurons away that lead to no other one does not change what the others give. -/
theorem concurs_of_trims {keep : Neuron → Bool} (h : e.Enacts c) (h' : e'.Enacts c')
    (hbatch : e'.batch = e.batch)
    (htrims : Trims keep e.neurons e.synapses e'.neurons e'.synapses) :
    e.Concurs c e' c' := by
  intro inputs inputs' hinputs hinputs' hsame
  rcases h.exists_output inputs hinputs with ⟨out, hout, -, hcells⟩
  rw [← hbatch] at hinputs'
  rcases h'.exists_output inputs' hinputs' with ⟨out', hout', -, hcells'⟩
  refine ⟨out, out', hout, hout', ?_⟩
  intro r hr v hv hv'
  rcases hcells r hr v hv with ⟨f, hf, hx⟩
  rcases hcells' r (hbatch.symm ▸ hr) v hv' with ⟨f', hf', hx'⟩
  rw [hf, Except.ok.injEq] at hf'
  rw [← hf', htrims.excitation_eq hv' fun u hu => hsame r hr u (htrims.subset hu) hu] at hx'
  exact ⟨_, hx, hx'⟩

/--
A change that does not concern the other neurons leaves them in the graph, and their outputs as
they were: whenever the engine before the change and the engine after it are given the same inputs
for the neurons that both of them hold, they have the same outputs for these, each at the index
that the neuron has in the one compiled graph and in the other.
-/
theorem outputs_of_unrelated [Scalar.Rereadable α] {a : Action α} (h : e.Untaught IsText)
    (hsome : e.compiled.isSome = true) (hprecision : e.training.basePrecision = .fp32)
    (ha : a.Admissible IsText e) (hunrelated : a.Unrelated e)
    (hok : a.perform.succeeds e = true) :
    ∃ c c', e.compiled = some c ∧ (a.perform.after e).compiled = some c' ∧
      e.neuronStore.getAll = .ok e.neurons ∧ e.synapseStore.getAll = .ok e.synapses ∧
      (a.perform.after e).neuronStore.getAll = .ok (a.perform.after e).neurons ∧
      (∀ v ∈ e.neurons, a.spares v = true → v ∈ (a.perform.after e).neurons ∧
        c.index.find? v.id = some (c.place v.id) ∧
        c'.index.find? v.id = some (c'.place v.id)) ∧
      (a.perform.after e).batch = e.batch ∧ e.Concurs c (a.perform.after e) c' := by
  have hP := Value.idClass_isText
  have he := h.reachable.coherent hP
  have hpristine := h.lasting hP lasting_pristine hsome
  have hspared := spared_of_unrelated he hpristine.untrained ha hunrelated hok
  revert hspared
  generalize a.perform.after e = e'
  intro hspared
  have he' := hspared.rebuilt.coherent
  have hbatch : e'.batch = e.batch := by
    rw [batch, hspared.rebuilt.training, batch]
  have hprecision' : e'.training.basePrecision = .fp32 := by
    rw [hspared.rebuilt.training]
    exact hprecision
  rcases hpristine.enacts he hsome hprecision with ⟨c, henacts⟩
  rcases (hspared.rebuilt.pristine hspared.compiled).enacts he' hspared.compiled hprecision' with
    ⟨c', henacts'⟩
  refine ⟨c, c', henacts.compiled, henacts'.compiled, he.stocked.getAll.1, he.stocked.getAll.2,
    he'.stocked.getAll.1, ?_, hbatch, ?_⟩
  · intro v hv hspares
    have hv' := hspared.spared v hv hspares
    rcases henacts.network with ⟨_, _, _, hfits, -⟩
    rcases henacts'.network with ⟨_, _, _, hfits', -⟩
    exact ⟨hv', (hfits.place hP he.stocked.neurons hv).1,
      (hfits'.place hP he'.stocked.neurons hv').1⟩
  · rcases hspared.trims with ⟨keep, htrims | htrims⟩
    · exact concurs_of_trims henacts henacts' hbatch htrims
    · exact (concurs_of_trims henacts' henacts hbatch.symm htrims).symm hbatch.symm

end Outputs

end Engine

/-!
## A neuron between two others
-/

/-- Rational numbers that are put into a double from which they can be read, if there is one. -/
def Readable : Type := Rat

namespace Readable

instance : Field Readable := inferInstanceAs (Field Rat)

noncomputable instance : Scalar Readable :=
  { (inferInstanceAs (Scalar Rat) : Scalar Rat) with toFloat := Function.invFun Rational.ofFloat }

instance : ExactField Readable where
  zero_eq := rfl
  add_eq := fun _ _ => rfl
  mul_eq := fun _ _ => rfl
  sub_eq := fun _ _ => rfl
  div_eq := fun _ _ => rfl
  ofNat_eq := fun _ => rfl
  same_iff := fun x y => ExactField.same_iff (show Rat from x) y

instance : Scalar.Rereadable Readable where
  like_reread d := by
    have hread : Scalar.ofFloat (Scalar.toFloat (Scalar.ofFloat d : Readable)) =
        (Scalar.ofFloat d : Readable) := Function.invFun_eq ⟨d, rfl⟩
    rw [hread]
    exact Scalar.Like.refl _

end Readable

namespace Engine

open Attempt
open Value (IdClass IsText)

/-- The synapses from a first neuron to two others. -/
def prongs : List Synapse :=
  [⟨.text "s", .text "a", .text "b", 4.0⟩, ⟨.text "t", .text "a", .text "c", 3.0⟩]

/-- The neurons that these synapses join. -/
def joints : List Neuron := [linearNeuron "a" 0.5, linearNeuron "b" 2.0, linearNeuron "c" 1.0]

/-- An engine on a neuron that leads to two others. -/
noncomputable def fork : Engine Readable :=
  create {} .trainable .default (.keyed (.ofList joints)) (.keyed (.ofList prongs)) none

theorem untaught_fork : (init.after fork).Untaught IsText := by
  have hcreate : createOn {} .trainable .default joints prongs none = .ok fork := rfl
  refine Startable.untaught Value.idClass_isText
    (startable_of_createOn Value.idClass_isText ?_ ?_ hcreate rfl rfl) (by decide +kernel)
  · intro n hn
    simp only [joints, List.mem_cons, List.not_mem_nil, or_false] at hn
    rcases hn with rfl | rfl | rfl <;> exact ⟨_, rfl⟩
  · intro s hs
    rcases List.mem_pair.mp hs with rfl | rfl <;> exact ⟨⟨_, rfl⟩, ⟨_, rfl⟩, ⟨_, rfl⟩⟩

/-- The engine without the second of its neurons, so that the third has another index. -/
noncomputable def prunedFork : Engine Readable :=
  (Action.deleteNeuron (.text "b")).perform.after (init.after fork)

theorem outputs_of_unrelated_pruned :
    ∃ c c' out out', (init.after fork).compiled = some c ∧ prunedFork.compiled = some c' ∧
      ((tick (some (.ok #[1, 10, 100]))).outcome (init.after fork)).1 = .ok out ∧
      ((tick (some (.ok #[1, 100]))).outcome prunedFork).1 = .ok out' ∧
      ∀ v ∈ (init.after fork).neurons, v ∈ prunedFork.neurons →
        ∃ x, out[0 * (init.after fork).neurons.length + c.place v.id]? = some x ∧
          out'[0 * prunedFork.neurons.length + c'.place v.id]? = some x := by
  have hunrelated : (Action.deleteNeuron (.text "b")).Unrelated (init.after fork) := by
    have hall : ((init.after fork).synapses.all fun s => !s.source.same (.text "b")) = true := by
      decide +kernel
    intro s hs hsource
    have hnone := List.all_eq_true.mp hall s hs
    rw [hsource] at hnone
    cases hnone
  have hplaces : ((init.after fork).compiled.map fun c =>
      (c.place (.text "a"), c.place (.text "c"))) = some (0, 2) := by decide +kernel
  have hplaces' : (prunedFork.compiled.map fun c =>
      (c.place (.text "a"), c.place (.text "c"))) = some (0, 1) := by decide +kernel
  have hneurons : prunedFork.neurons = [linearNeuron "a" 0.5, linearNeuron "c" 1.0] := rfl
  have hbatch : (init.after fork).batch = 1 := by decide +kernel
  rcases outputs_of_unrelated (a := .deleteNeuron (.text "b")) untaught_fork (by decide +kernel)
    (by decide +kernel) trivial hunrelated (by decide +kernel) with
    ⟨c, c', hc, hc', -, -, -, -, -, hconcurs⟩
  change prunedFork.compiled = some c' at hc'
  rw [hc, Option.map_some, Option.some.injEq, Prod.mk.injEq] at hplaces
  rw [hc', Option.map_some, Option.some.injEq, Prod.mk.injEq] at hplaces'
  have hsame : ∀ r < (init.after fork).batch, ∀ v ∈ (init.after fork).neurons,
      v ∈ prunedFork.neurons →
      Scalar.cell (#[1, 10, 100] : Array Readable)
          (r * (init.after fork).neurons.length + c.place v.id) =
        Scalar.cell (#[1, 100] : Array Readable)
          (r * prunedFork.neurons.length + c'.place v.id) := by
    intro r hr v _ hv
    rw [hbatch] at hr
    rw [Nat.lt_one_iff.mp hr, Nat.zero_mul, Nat.zero_mul, Nat.zero_add, Nat.zero_add]
    rw [hneurons] at hv
    rcases List.mem_pair.mp hv with rfl | rfl
    · rw [linearNeuron, hplaces.1, hplaces'.1]
      rfl
    · rw [linearNeuron, hplaces.2, hplaces'.2]
      rfl
  rcases hconcurs #[1, 10, 100] #[1, 100] (by decide +kernel) (by decide +kernel) hsame with
    ⟨out, out', hout, hout', hcells⟩
  exact ⟨c, c', out, out', hc, hc', hout, hout', hcells 0 (hbatch ▸ Nat.one_pos)⟩

end Engine
end Plexus
