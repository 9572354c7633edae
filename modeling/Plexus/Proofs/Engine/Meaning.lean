import Plexus.Proofs.Compiled.Flatten
import Plexus.Proofs.Engine.Reachable
import Plexus.Proofs.Numeric.Exact

/-!
# What a tick means

An engine that has not been trained since it was compiled last runs exactly the graph that
its stores hold.  With exact arithmetic a tick gives, for each neuron, its activation function
applied to its bias plus the weighted inputs of all neurons.
-/

namespace Plexus

namespace Engine

open Attempt
open Value (IdClass)

variable {α : Type} {P : Value → Prop} [Scalar α]

/-- A reachable and compiled engine that has not been trained since it was compiled last. -/
inductive Settled (P : Value → Prop) : Engine α → Prop
  | opened {e : Engine α} (h : e.Startable P) (hinit : init.succeeds e = true) :
      Settled P (init.after e)
  | mutated {e : Engine α} (h : e.Reachable P) (hc : e.compiled.isSome = true) (a : Action α)
      (ha : a.Admissible P e) (hmutates : a.mutates = true ∨ a.reloads = true)
      (hok : a.perform.succeeds e = true) :
      Settled P (a.perform.after e)
  | ran {e : Engine α} (h : Settled P e) (a : Action α) (ha : a.Admissible P e)
      (hruns : a.runs = true) :
      Settled P (a.perform.after e)

theorem Settled.reachable {e : Engine α} (h : e.Settled P) : e.Reachable P := by
  induction h with
  | opened h hinit => exact .opened h hinit
  | mutated h _ a ha _ _ => exact .step h a ha
  | ran _ a ha _ ih => exact .step ih a ha

theorem Mirrored.of_calm {e e' : Engine α} (h : e.Mirrored) (hcalm : e.Calm e') :
    e'.Mirrored where
  untrained := by
    rw [hcalm.compiled, hcalm.trained]
    exact h.untrained
  graph := by
    rw [hcalm.compiled, hcalm.neurons, hcalm.synapses]
    exact h.graph
  parameters := by
    rw [hcalm.compiled, hcalm.parameters, hcalm.training]
    exact h.parameters

/-- A settled engine has compiled the graph that it holds, and runs it. -/
theorem Settled.mirrored {e : Engine α} (hP : IdClass P) (h : e.Settled P) :
    e.Mirrored ∧ e.compiled.isSome = true := by
  induction h with
  | opened h hinit =>
      rcases h.rebuilt hP hinit with ⟨ns, ss, hrebuilt, hsome⟩
      exact ⟨hrebuilt.mirrored, hsome⟩
  | mutated h hc a ha hmutates hok =>
      have he := h.coherent hP
      rcases hmutates with hmutates | hreloads
      · rcases (a.changes hP he ha hmutates).rebuilt hok with
          ⟨e₁, ns, ss, settings, -, -, hrebuilt, hsome⟩
        exact ⟨hrebuilt.mirrored, hsome hc⟩
      · rcases (a.edits hP he ha hreloads).rebuilt hok with
          ⟨ns, ss, settings, -, hrebuilt, hsome⟩
        exact ⟨hrebuilt.mirrored, hsome hc⟩
  | ran h a ha hruns ih =>
      rcases ih with ⟨hmirrored, hsome⟩
      rcases a.rests hP (h.reachable.coherent hP) hruns with hrested | hsaved
      · refine ⟨hmirrored.of_calm hrested.calm, ?_⟩
        rw [hrested.calm.compiled]
        exact hsome
      · rw [hsaved.eq_of_untrained (hmirrored.untrained hsome)]
        exact ⟨hmirrored, hsome⟩

/-!
## The network of a mirrored engine
-/

/--
Whether some parameters are just those of the cached graph: each neuron has its bias, and two
neurons have the weight of the last synapse from the one to the other.
-/
structure Embodies (weights biases : Array α) (e : Engine α) : Prop where
  bias : ∀ i v, e.neurons[i]? = some v → Scalar.cell biases i = Scalar.ofFloat v.bias
  weight : ∀ i j u v, e.neurons[i]? = some u → e.neurons[j]? = some v →
    Scalar.cell weights (j * e.neurons.length + i) =
      Compiled.weightOf (Synapse.lastJoining e.synapses u.id v.id)

theorem Embodies.congr {weights biases : Array α} {e e' : Engine α}
    (h : e.Embodies weights biases) (hneurons : e'.neurons = e.neurons)
    (hsynapses : e'.synapses = e.synapses) :
    e'.Embodies weights biases where
  bias := by
    rw [hneurons]
    exact h.bias
  weight := by
    rw [hneurons, hsynapses]
    exact h.weight

/-- In single precision, the parameters of the network are those of the stored graph. -/
theorem Mirrored.embodies {weights biases : Array α} {e : Engine α} (hmirrored : e.Mirrored)
    (he : e.Coherent Value.IsText) (hsome : e.compiled.isSome = true)
    (hprecision : e.training.basePrecision = .fp32)
    (hparameters : e.parameters = some (weights, biases)) :
    e.Embodies weights biases := by
  have hdistinct := he.stocked.neurons
  have hstore : (Scalar.store .fp32 : α → α) = id := rfl
  rcases Option.isSome_iff_exists.mp hsome with ⟨c, hc⟩
  rw [hmirrored.parameters c hc, hmirrored.graph c hc, hprecision, hstore, Array.map_id,
    Array.map_id] at hparameters
  cases hparameters
  constructor
  · intro i v hv
    exact Compiled.cell_biases_flatten _ hv
  · intro i j u v hu hv
    exact Compiled.cell_weights_flatten hdistinct.apart hdistinct.named he.stocked.ends hu hv

variable [CommSemiring α]

/--
What a neuron sums up in a row of an input: its bias and, for each neuron, the weight of the
last synapse from there times the input of that neuron.
-/
def excitation (e : Engine α) (c : Compiled α) (inputs : Array α) (b : Nat) (v : Neuron) : α :=
  Scalar.ofFloat v.bias + (e.neurons.map fun u =>
    Compiled.weightOf (Synapse.lastJoining e.synapses u.id v.id) *
      Scalar.cell inputs (b * e.neurons.length + c.place u.id)).sum

/-- What a slot of the network sums up is what its neuron sums up in the stored graph. -/
theorem Embodies.preactivation_eq [Exact α] {c : Compiled α} {rows : Nat} {a : Arena α}
    {b : Backend α} {e : Engine α} {i : Nat} {v : Neuron}
    (hembodies : e.Embodies a.weights a.biases) (he : e.Coherent Value.IsText)
    (h : e.Fits c rows a b) (hv : e.neurons[i]? = some v) (inputs : Array α) (r : Nat) :
    a.preactivation e.neurons.length inputs r i = e.excitation c inputs r v := by
  have hsum : (e.neurons.map fun u =>
      Compiled.weightOf (Synapse.lastJoining e.synapses u.id v.id) *
        Scalar.cell inputs (r * e.neurons.length + c.place u.id)) =
      (List.range e.neurons.length).map fun s =>
        Scalar.cell inputs (r * e.neurons.length + s) *
          Scalar.cell a.weights (i * e.neurons.length + s) := by
    apply map_eq_map_range
    intro s u hu
    rw [h.place_eq Value.idClass_isText he.stocked.neurons hu, hembodies.weight s i u v hu hv,
      mul_comm]
  rw [Arena.preactivation, Exact.add_eq, Exact.dot_eq_sum, hembodies.bias i v hv, excitation, hsum,
    add_comm]

/-- So a mirrored engine in single precision sums up what its stored graph says. -/
theorem preactivation_eq [Exact α] {c : Compiled α} {rows : Nat} {a : Arena α} {b : Backend α}
    {e : Engine α} {i : Nat} {v : Neuron} (he : e.Coherent Value.IsText)
    (hmirrored : e.Mirrored) (hc : e.compiled = some c) (h : e.Fits c rows a b)
    (hprecision : e.training.basePrecision = .fp32) (hv : e.neurons[i]? = some v)
    (inputs : Array α) (r : Nat) :
    a.preactivation e.neurons.length inputs r i = e.excitation c inputs r v :=
  (hmirrored.embodies he (Option.isSome_of_eq_some hc) hprecision h.parameters_eq).preactivation_eq
    he h hv inputs r

/--
A tick of a settled engine in single precision succeeds on every input with a cell for each
slot of each row.  Its output for a neuron is the neuron's activation function applied to what
the neuron sums up in the stored graph.
-/
theorem tick_eq_activate_excitation [Exact α] {e : Engine α} (h : e.Settled Value.IsText)
    (hprecision : e.training.basePrecision = .fp32) :
    ∃ c, e.compiled = some c ∧
      e.neuronStore.getAll = .ok e.neurons ∧ e.synapseStore.getAll = .ok e.synapses ∧
      (∀ v ∈ e.neurons,
        c.index.find? v.id = some (c.place v.id) ∧ e.neurons[c.place v.id]? = some v) ∧
      ∀ inputs : Array α, inputs.size = e.neurons.length * e.batch →
        ∃ out, ((tick (some (.ok inputs))).outcome e).1 = .ok out ∧
          out.size = e.neurons.length * e.batch ∧
          ∀ b < e.batch, ∀ v ∈ e.neurons, ∃ f, Activation.ofValue v.activation = .ok f ∧
            out[b * e.neurons.length + c.place v.id]? =
              some (Scalar.activate f (e.excitation c inputs b v)) := by
  have hP := Value.idClass_isText
  have he := h.reachable.coherent hP
  rcases h.mirrored hP with ⟨hmirrored, hsome⟩
  rcases he.exists_fits hsome with ⟨c, rows, a, b, hc, hfits⟩
  refine ⟨c, hc, he.stocked.getAll.1, he.stocked.getAll.2, ?_, ?_⟩
  · intro v hv
    exact hfits.place hP he.stocked.neurons hv
  · intro inputs hinputs
    rw [hfits.batch_eq] at hinputs ⊢
    have hgiven : (some (.ok inputs) : Option (Operand α)).getD (.ok e.staged) = .ok inputs := rfl
    rw [← hfits.size] at hinputs
    have htick := outcome_tick hc hfits hgiven hinputs
    rw [hfits.size] at htick
    refine ⟨_, congrArg Prod.fst htick, Arena.size_output_forward _ _ _ _, ?_⟩
    intro r hr v hv
    have hplace := (hfits.place hP he.stocked.neurons hv).2
    rcases hfits.activation_eq hplace with ⟨f, hf, hcode⟩
    have hslot : c.place v.id < e.neurons.length := (List.getElem?_eq_some_iff.mp hplace).1
    refine ⟨f, hf, ?_⟩
    rw [Arena.getElem?_output_forward a inputs hr hslot, Arena.response,
      preactivation_eq he hmirrored hc hfits hprecision hplace, Arena.codeAt, hcode,
      Option.getD_some]

/-- An engine on two neurons and the synapse from the first to the second. -/
def pair : Engine Rat :=
  create {} .trainable .default
    (.keyed (.ofList [linearNeuron "a" 0.5, linearNeuron "b" 1.0]))
    (.keyed (.ofList [⟨.text "s", .text "a", .text "b", 2.0⟩])) none

theorem startable_pair : pair.Startable Value.IsText := by
  have hcreate : createOn {} .trainable .default
      [linearNeuron "a" 0.5, linearNeuron "b" 1.0]
      [⟨.text "s", .text "a", .text "b", 2.0⟩] none = .ok pair := rfl
  refine startable_of_createOn Value.idClass_isText ?_ ?_ hcreate rfl rfl
  · intro n hn
    rcases List.mem_pair.mp hn with rfl | rfl
    · exact ⟨"a", rfl⟩
    · exact ⟨"b", rfl⟩
  · intro s hs
    rw [List.mem_singleton.mp hs]
    exact ⟨⟨"s", rfl⟩, ⟨"a", rfl⟩, ⟨"b", rfl⟩⟩

/-- The engine after the weight of its synapse has been changed. -/
def reweightedPair : Engine Rat :=
  (Action.updateSynapseWeight (.text "s") (.real 3.0)).perform.after (init.after pair)

theorem settled_reweightedPair : reweightedPair.Settled Value.IsText := by
  have hinit : init.succeeds pair = true := by decide +kernel
  have hcompiled : (init.after pair).compiled.isSome = true := by decide +kernel
  refine .mutated (.opened startable_pair hinit) hcompiled _ trivial (Or.inl rfl) ?_
  decide +kernel

theorem tick_eq_activate_excitation_pair :
    ∃ c out, reweightedPair.compiled = some c ∧
      ((tick (some (.ok #[1, 10]))).outcome reweightedPair).1 = .ok out ∧
      ∀ v ∈ reweightedPair.neurons, ∃ f, Activation.ofValue v.activation = .ok f ∧
        out[0 * reweightedPair.neurons.length + c.place v.id]? =
          some (Scalar.activate f (reweightedPair.excitation c #[1, 10] 0 v)) := by
  have hprecision : reweightedPair.training.basePrecision = .fp32 := by decide +kernel
  have hlength : (#[1, 10] : Array Rat).size =
      reweightedPair.neurons.length * reweightedPair.batch := by decide +kernel
  have hbatch : 0 < reweightedPair.batch := by decide +kernel
  rcases tick_eq_activate_excitation settled_reweightedPair hprecision with
    ⟨c, hc, -, -, -, htick⟩
  rcases htick #[1, 10] hlength with ⟨out, hout, -, hcells⟩
  exact ⟨c, out, hc, hout, hcells 0 hbatch⟩

example : (((tick (some (.ok #[1, 10]))).outcome reweightedPair).1.toOption.map Array.toList) =
    some [1 / 2, 4] := by decide +kernel

end Engine
end Plexus
