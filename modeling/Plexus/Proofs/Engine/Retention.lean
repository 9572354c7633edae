import Plexus.Proofs.Compiled.Flatten
import Plexus.Proofs.Engine.Reachable
import Plexus.Proofs.Numeric.Storage

/-!
# What a change keeps of the parameters

Parameters travel from the backend into the stores and, through a new compilation, back into
the backend.  A graph carries parameters if compiling it would give them back.  Writing
trained parameters back makes the graph carry them, and a graph that has not been trained
carries the parameters it was compiled to.
-/

namespace Plexus
namespace Engine

open Attempt
open Compiled (Indexes)
open Scalar (Like Lossless Storable)
open Value (IdClass)

variable {α : Type} [Scalar α] {P : Value → Prop}

/-- Whether the cached graph, stored in a precision, says what some parameters are. -/
structure Carries (p : Precision) (weights biases : Array α) (e : Engine α) : Prop where
  bias : ∀ i n, e.neurons[i]? = some n →
    Like (Scalar.store p (Scalar.ofFloat n.bias)) (Scalar.cell biases i)
  weight : ∀ i j u v s, e.neurons[i]? = some u → e.neurons[j]? = some v →
    Synapse.lastJoining e.synapses u.id v.id = some s →
    Like (Scalar.store p (Scalar.ofFloat s.weight))
      (Scalar.cell weights (j * e.neurons.length + i))

theorem Carries.congr {p : Precision} {weights biases : Array α} {e e' : Engine α}
    (h : e.Carries p weights biases) (hneurons : e'.neurons = e.neurons)
    (hsynapses : e'.synapses = e.synapses) :
    e'.Carries p weights biases where
  bias := by
    rw [hneurons]
    exact h.bias
  weight := by
    rw [hneurons, hsynapses]
    exact h.weight

/-- Whether each synapse of the cached graph, the last or not, has the weight of its cell. -/
def CarriesEach (weights : Array α) (e : Engine α) : Prop :=
  ∀ i j u v s, e.neurons[i]? = some u → e.neurons[j]? = some v →
    s ∈ e.synapses → s.joins u.id v.id = true →
    Like (Scalar.ofFloat s.weight) (Scalar.cell weights (j * e.neurons.length + i))

/-!
## Parameters that have been written back
-/

section Written

variable [Lossless α]

theorem like_rebiased {c : Compiled α} {biases : Array α} {n : Neuron} {i : Nat}
    (hi : c.index.find? n.id = some i) :
    Like (Scalar.ofFloat (rebiased c biases n).bias) (Scalar.cell biases i) := by
  rw [rebiased, hi]
  dsimp only
  cases hdiffers : Scalar.toFloat (Scalar.cell biases i) != n.bias with
  | true =>
      rw [if_pos rfl]
      exact Lossless.like_widened _
  | false =>
      rw [if_neg Bool.false_ne_true]
      exact Lossless.like_equal _ _ hdiffers

theorem like_reweighted {c : Compiled α} {weights : Array α} {s : Synapse} {k : Nat}
    (hk : Compiled.cellOf? c.index c.size s = some k) :
    Like (Scalar.ofFloat (reweighted c weights s).weight) (Scalar.cell weights k) := by
  rw [reweighted, hk]
  dsimp only
  cases hdiffers : Scalar.toFloat (Scalar.cell weights k) != s.weight with
  | true =>
      rw [if_pos rfl]
      exact Lossless.like_widened _
  | false =>
      rw [if_neg Bool.false_ne_true]
      exact Lossless.like_equal _ _ hdiffers

variable {c : Compiled α} {e : Engine α}

theorem like_synced_bias (hP : IdClass P) (hs : e.Stocked P e.neurons e.synapses)
    (h : Indexes e.neurons c) (weights biases : Array α) {i : Nat} {n : Neuron}
    (hn : (e.synced c weights biases).neurons[i]? = some n) :
    Like (Scalar.ofFloat n.bias) (Scalar.cell biases i) := by
  have hmap : (e.neurons.map (rebiased c biases))[i]? = some n := hn
  rw [List.getElem?_map] at hmap
  rcases Option.map_eq_some_iff.mp hmap with ⟨m, hm, rfl⟩
  exact like_rebiased (h.find?_id hP hs.neurons hm)

omit [Lossless α] in
theorem indexes_synced (h : Indexes e.neurons c) (weights biases : Array α) :
    Indexes (e.synced c weights biases).neurons c :=
  h.of_ids (by simp [synced, Function.comp_def])

theorem carriesEach_synced (hs : e.Stocked Value.IsText e.neurons e.synapses)
    (h : Indexes e.neurons c) (weights biases : Array α) :
    (e.synced c weights biases).CarriesEach weights := by
  intro i j u v s hu hv hmem hjoins
  have hsynced := indexes_synced h weights biases
  have huId : c.ids[i]? = some u.id := by
    rw [hsynced.ids, List.getElem?_map, hu, Option.map_some]
  have hvId : c.ids[j]? = some v.id := by
    rw [hsynced.ids, List.getElem?_map, hv, Option.map_some]
  have htext : ∀ id ∈ c.ids, id.IsText := by
    intro id hid
    rw [h.ids] at hid
    rcases List.mem_map.mp hid with ⟨n, hn, rfl⟩
    exact hs.neurons.named n hn
  rcases List.mem_map.mp hmem with ⟨d, hd, rfl⟩
  have hjoins' : d.joins u.id v.id = true := by
    rw [Synapse.joins, reweighted_source, reweighted_target] at hjoins
    exact hjoins
  have hcell := (Compiled.cellOf?_eq_some_iff (h.apart hs.neurons) htext (hs.ends d hd) huId
    hvId).mpr hjoins'
  have hsize : c.size = c.ids.length := by
    rw [h.size, h.ids, List.length_map]
  rw [← h.index, ← hsize] at hcell
  rw [← hsynced.size]
  exact like_reweighted hcell

theorem carries_synced (hs : e.Stocked Value.IsText e.neurons e.synapses)
    (h : Indexes e.neurons c) (weights biases : Array α) :
    (e.synced c weights biases).Carries .fp32 weights biases where
  bias := fun _ _ hn => like_synced_bias Value.idClass_isText hs h weights biases hn
  weight := by
    intro i j u v s hu hv hlast
    rcases Synapse.mem_of_lastJoining hlast with ⟨hmem, hjoins⟩
    exact carriesEach_synced hs h weights biases i j u v s hu hv hmem hjoins

end Written

/-!
## Parameters that have been compiled
-/

theorem cell_map_store [Storable α] (p : Precision) (buffer : Array α) (i : Nat) :
    Scalar.cell (buffer.map (Scalar.store p)) i = Scalar.store p (Scalar.cell buffer i) := by
  unfold Scalar.cell
  rw [Array.getElem?_map]
  cases buffer[i]? with
  | none => exact (Storable.store_zero p).symm
  | some x => rfl

theorem rounded_cell [Storable α] {p : Precision} {buffer : Array α}
    (h : ∀ x ∈ buffer, Scalar.Rounded p x) (i : Nat) :
    Scalar.Rounded p (Scalar.cell buffer i) := by
  unfold Scalar.cell
  cases hi : buffer[i]? with
  | none => exact ⟨Scalar.zero, (Storable.store_zero p).symm⟩
  | some x => exact h x (Array.mem_of_getElem? hi)

theorem Mirrored.carries [Storable α] {c : Compiled α} {weights biases : Array α} {e : Engine α}
    (h : e.Mirrored) (he : e.Coherent Value.IsText) (hc : e.compiled = some c)
    (hparameters : e.parameters = some (weights, biases)) :
    e.Carries e.training.basePrecision weights biases := by
  have hdistinct := he.stocked.neurons
  rw [h.parameters c hc, h.graph c hc] at hparameters
  cases hparameters
  constructor
  · intro i n hn
    rw [cell_map_store, Compiled.cell_biases_flatten _ hn]
    exact Like.refl _
  · intro i j u v s hu hv hlast
    rw [cell_map_store,
      Compiled.cell_weights_flatten hdistinct.apart hdistinct.named he.stocked.ends hu hv, hlast]
    exact Like.refl _

/-- Storing rounded parameters once more does not change them. -/
theorem Carries.stored [Storable α] {p : Precision} {weights biases : Array α} {e : Engine α}
    (h : e.Carries .fp32 weights biases) (hweights : ∀ x ∈ weights, Scalar.Rounded p x)
    (hbiases : ∀ x ∈ biases, Scalar.Rounded p x) :
    e.Carries p weights biases := by
  constructor
  · intro i n hn
    exact Storable.like_store p _ _ (rounded_cell hbiases i) (h.bias i n hn)
  · intro i j u v s hu hv hlast
    exact Storable.like_store p _ _ (rounded_cell hweights _) (h.weight i j u v s hu hv hlast)

/-- An engine that holds its parameters in its graph, unless it is marked as trained. -/
def Retains (e : Engine α) : Prop :=
  e.trained = false → ∀ c weights biases, e.compiled = some c →
    e.parameters = some (weights, biases) →
      e.Carries e.training.basePrecision weights biases

theorem Retains.of_calm {e e' : Engine α} (h : e.Retains) (hcalm : e.Calm e') : e'.Retains := by
  intro huntrained c weights biases hc hparameters
  rw [hcalm.trained] at huntrained
  rw [hcalm.compiled] at hc
  rw [hcalm.parameters] at hparameters
  rw [hcalm.training]
  exact (h huntrained c weights biases hc hparameters).congr hcalm.neurons hcalm.synapses

/-!
## Asking for parameters
-/

/-- Whether a neuron with an identifier is in the cache. -/
def knows (e : Engine α) (id : Value) : Bool := e.neurons.any fun n => n.id.same id

/-- Whether a synapse in the cache leads from one neuron to another. -/
def links (e : Engine α) (source target : Value) : Bool :=
  e.synapses.any (Synapse.joins source target)

/-- Whether an action has added or rewritten a synapse from one neuron to another. -/
def relinks (a : Action α) (e : Engine α) (source target : Value) : Bool :=
  e.synapses.any fun s => s.joins source target && a.writes s

/-- The bias of a neuron in the compiled graph. -/
def compiledBias (e : Engine α) (id : Value) : Option α :=
  e.compiled.map fun c => Scalar.cell c.biases (c.place id)

/-- The weight between two neurons in the compiled graph. -/
def compiledWeight (e : Engine α) (source target : Value) : Option α :=
  e.compiled.map fun c => Scalar.cell c.weights (c.place target * c.size + c.place source)

/-- What the backend answers if it is asked for its parameters. -/
def readParameters? (e : Engine α) : Option (Array α × Array α) :=
  ((onBackend Backend.readParameters).outcome e).1.toOption

/-- The bias of a neuron that the backend runs. -/
def runningBias (e : Engine α) (id : Value) : Option α :=
  match e.compiled, e.readParameters? with
  | some c, some (_, biases) => some (Scalar.cell biases (c.place id))
  | _, _ => none

/-- The weight between two neurons that the backend runs. -/
def runningWeight (e : Engine α) (source target : Value) : Option α :=
  match e.compiled, e.readParameters? with
  | some c, some (weights, _) =>
      some (Scalar.cell weights (c.place target * c.size + c.place source))
  | _, _ => none

/-- Whether two parameters are there and are alike. -/
def Alike (x? y? : Option α) : Prop := ∃ x y, x? = some x ∧ y? = some y ∧ Like x y

omit [Scalar α] in
theorem exists_of_knows {e : Engine α} {id : Value}
    (hs : e.Stocked Value.IsText e.neurons e.synapses) (h : e.knows id = true) :
    ∃ n ∈ e.neurons, n.id = id := by
  rcases List.any_eq_true.mp h with ⟨n, hn, hsame⟩
  exact ⟨n, hn, (Value.eq_of_text_same (hs.neurons.named n hn) hsame).symm⟩

theorem Fits.readParameters?_eq {c : Compiled α} {rows : Nat} {a : Arena α} {b : Backend α}
    {e : Engine α} (h : e.Fits c rows a b) :
    e.readParameters? = some (a.weights, a.biases) := by
  rw [readParameters?, outcome_onBackend h.backend, h.holds.readParameters_eq]
  rfl

theorem Fits.runningBias_eq {c : Compiled α} {rows : Nat} {a : Arena α} {b : Backend α}
    {e : Engine α} (h : e.Fits c rows a b) (hc : e.compiled = some c) (id : Value) :
    e.runningBias id = some (Scalar.cell a.biases (c.place id)) := by
  rw [runningBias, hc, h.readParameters?_eq]

theorem Fits.runningWeight_eq {c : Compiled α} {rows : Nat} {a : Arena α} {b : Backend α}
    {e : Engine α} (h : e.Fits c rows a b) (hc : e.compiled = some c) (source target : Value) :
    e.runningWeight source target =
      some (Scalar.cell a.weights (c.place target * c.size + c.place source)) := by
  rw [runningWeight, hc, h.readParameters?_eq]

/-!
## Reachable engines
-/

/-- Parameters are rounded when they are compiled and each time that they are trained. -/
theorem invariant_rounded {P : Value → Prop} : Invariant P (Rounded : Engine α → Prop) where
  rebuilt := by
    intro ns ss settings e hrebuilt hc weights biases hparameters
    rcases Option.isSome_iff_exists.mp hc with ⟨c, hc⟩
    rw [hrebuilt.mirrored.parameters c hc] at hparameters
    cases hparameters
    constructor
    · intro x hx
      rcases Array.mem_map.mp hx with ⟨y, -, rfl⟩
      exact ⟨y, rfl⟩
    · intro x hx
      rcases Array.mem_map.mp hx with ⟨y, -, rfl⟩
      exact ⟨y, rfl⟩
  closed := by
    intro e hclosed hc
    rw [hclosed] at hc
    cases hc
  calm := fun hcalm h => h.of_calm hcalm
  synced := fun _ _ _ h => h
  trained := fun htrained => htrained.rounded

variable [Lossless α] [Storable α]

theorem carries_stored {c : Compiled α} {weights biases : Array α} {e : Engine α}
    (he : e.Coherent Value.IsText) (hrounded : e.Rounded) (hc : e.compiled = some c)
    (hparameters : e.parameters = some (weights, biases)) :
    (e.synced c weights biases).Carries e.training.basePrecision weights biases := by
  rcases he.fits c hc with ⟨rows, a, b, hfits⟩
  rcases hrounded (by rw [hc]; rfl) weights biases hparameters with ⟨hweights, hbiases⟩
  exact (carries_synced he.stocked hfits.toIndexes weights biases).stored hweights hbiases

/-- An engine that is not trained can give its parameters back. -/
theorem invariant_retains :
    Invariant Value.IsText fun e : Engine α => e.Rounded ∧ e.Retains where
  rebuilt := by
    intro ns ss settings e hrebuilt
    constructor
    · exact invariant_rounded.rebuilt hrebuilt
    · intro _ c weights biases hc hparameters
      exact hrebuilt.mirrored.carries hrebuilt.coherent hc hparameters
  closed := by
    intro e hclosed
    constructor
    · exact invariant_rounded.closed (P := Value.IsText) hclosed
    · intro _ c weights biases hc
      rw [hclosed] at hc
      cases hc
  calm := fun hcalm h => ⟨h.1.of_calm hcalm, h.2.of_calm hcalm⟩
  synced := by
    intro e c weights biases he hc hparameters h
    constructor
    · exact h.1
    · intro _ _ weights' biases' _ hparameters'
      have hsame : (e.synced c weights biases).parameters = e.parameters := rfl
      rw [hsame, hparameters] at hparameters'
      cases hparameters'
      exact carries_stored he h.1 hc hparameters
  trained := by
    intro e e' htrained h
    constructor
    · exact htrained.rounded h.1
    · intro huntrained
      rw [htrained.trained] at huntrained
      cases huntrained

theorem Reachable.rounded {e : Engine α} (h : e.Reachable Value.IsText) : e.Rounded :=
  (h.invariant Value.idClass_isText invariant_retains).1

/-- Every reachable engine can give its parameters back. -/
theorem Reachable.retains {e : Engine α} (h : e.Reachable Value.IsText) : e.Retains :=
  (h.invariant Value.idClass_isText invariant_retains).2

/-- An engine on two neurons with two synapses from the first to the second. -/
def parallel : Engine Float32 :=
  create {} .trainable .default
    (.keyed (.ofList [linearNeuron "a" 0.0, linearNeuron "b" 0.0]))
    (.keyed (.ofList [⟨.text "s", .text "a", .text "b", 1.0⟩,
      ⟨.text "t", .text "a", .text "b", 2.0⟩])) none

theorem text_parallel :
    (∀ n ∈ [linearNeuron "a" 0.0, linearNeuron "b" 0.0], n.id.IsText) ∧
      ∀ s ∈ [(⟨.text "s", .text "a", .text "b", 1.0⟩ : Synapse),
        ⟨.text "t", .text "a", .text "b", 2.0⟩],
        s.id.IsText ∧ s.source.IsText ∧ s.target.IsText := by
  constructor
  · intro n hn
    rcases List.mem_cons.mp hn with rfl | hn
    · exact ⟨"a", rfl⟩
    · rw [List.mem_singleton.mp hn]
      exact ⟨"b", rfl⟩
  · intro s hs
    rcases List.mem_cons.mp hs with rfl | hs
    · exact ⟨⟨"s", rfl⟩, ⟨"a", rfl⟩, ⟨"b", rfl⟩⟩
    · rw [List.mem_singleton.mp hs]
      exact ⟨⟨"t", rfl⟩, ⟨"a", rfl⟩, ⟨"b", rfl⟩⟩

theorem startable_parallel : parallel.Startable Value.IsText := by
  have hcreate : createOn {} .trainable .default [linearNeuron "a" 0.0, linearNeuron "b" 0.0]
      [⟨.text "s", .text "a", .text "b", 1.0⟩, ⟨.text "t", .text "a", .text "b", 2.0⟩] none =
        .ok parallel := rfl
  exact startable_of_createOn Value.idClass_isText text_parallel.1 text_parallel.2 hcreate rfl rfl

theorem init_parallel : init.succeeds parallel = true := by decide +kernel

theorem reachable_parallel : (init.after parallel).Reachable Value.IsText :=
  .opened startable_parallel init_parallel

end Engine
end Plexus
