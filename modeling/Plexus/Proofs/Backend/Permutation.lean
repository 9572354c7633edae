import Plexus.Proofs.Backend.Forward
import Plexus.Proofs.Backend.Soundness
import Plexus.Proofs.Compiled.Permutation
import Plexus.Proofs.Numeric.Exact

/-!
# Running a graph that is stored in another order

With exact arithmetic it does not matter in which order a slot sums up what comes in.  A graph
that is read in another order therefore gives the same outputs, at the indices that its neurons
have then.
-/

namespace Plexus

variable {α : Type} [Scalar α]

/-- Rows with a cell for each neuron that agree by name, for two graphs that do. -/
structure Compiled.Permuted (c c' : Compiled α) (rows : Nat) (xs xs' : Array α) : Prop where
  size : xs'.size = xs.size
  cell : ∀ r < rows, ∀ id i j, c.index.find? id = some i → c'.index.find? id = some j →
    xs'[r * c'.size + j]? = xs[r * c.size + i]?

/-- Prepares a compiled graph. -/
def Backend.prepareCompiled (c : Compiled α) (batch : Number) : Attempt (Backend α) Unit :=
  prepare (.int c.size) (.ok c.weights) (.ok c.biases) (.ok batch) (.ok (some c.activations))

/-!
## What a slot sums up
-/

namespace Arena

variable {ns ns' : List Neuron} {ss ss' : List Synapse}

/-- The arena of a compiled graph. -/
def ofCompiled (precision : Precision) (rows : Nat) (codes : List Activation) (c : Compiled α) :
    Arena α :=
  allocate precision c.size rows c.weights c.biases codes

theorem cell_store {precision : Precision} {buffer : Array α} {i : Nat} (hi : i < buffer.size) :
    Scalar.cell (buffer.map (Scalar.store precision)) i =
      Scalar.store precision (Scalar.cell buffer i) := by
  rw [Scalar.cell, Scalar.cell, Array.getElem?_map, Array.getElem?_eq_getElem hi]
  rfl

/-- A slot gets from each neuron what the weight between the two makes of the neuron's cell. -/
theorem dot_ofCompiled [CommSemiring α] [Exact α] (precision : Precision) (rows : Nat)
    (codes : List Activation) (htext : ∀ n ∈ ns, n.id.IsText) (hnodup : (ns.map Neuron.id).Nodup)
    {i : Nat} (hi : i < ns.length) (xs : Array α) (r : Nat) :
    Scalar.dot ns.length xs (r * ns.length)
        (ofCompiled precision rows codes (Compiled.flatten ns ss)).weights (i * ns.length) =
      (ns.map fun u =>
        Scalar.cell xs (r * ns.length + (Compiled.flatten ns ss : Compiled α).place u.id) *
          Scalar.store precision (Scalar.cell (Compiled.flatten ns ss : Compiled α).weights
            (i * ns.length + (Compiled.flatten ns ss : Compiled α).place u.id))).sum := by
  rw [Exact.dot_eq_sum]
  congr 1
  refine (map_eq_map_range ?_).symm
  intro s u hu
  have hplace : (Compiled.flatten ns ss : Compiled α).place u.id = s := by
    have hfound : (Compiled.flatten ns ss : Compiled α).index.find? u.id = some s :=
      (IndexTable.find?_ofIds_iff_getElem? (fun _ => text_of_mem_ids htext) hnodup).mpr
        (by rw [List.getElem?_map, hu, Option.map_some])
    rw [Compiled.place, hfound, Option.getD_some]
  have hs : s < ns.length := (List.getElem?_eq_some_iff.mp hu).1
  have hcell : i * ns.length + s < (Compiled.flatten ns ss : Compiled α).weights.size := by
    rw [Compiled.size_weights_flatten]
    exact cell_lt hi hs
  rw [hplace, ofCompiled, allocate, cell_store hcell]

theorem codeAt_ofCompiled {precision : Precision} {rows : Nat} {codes : List Activation}
    {c : Compiled α} {tag : Value} {i : Nat}
    (hcodes : c.activations.mapM Activation.ofValue = .ok codes)
    (htag : c.activations[i]? = some tag) :
    .ok ((ofCompiled precision rows codes c).codeAt i) = Activation.ofValue tag := by
  rcases Attempt.mapM_getElem? hcodes htag with ⟨f, hf, hcode⟩
  rw [hf, codeAt, ofCompiled, allocate, List.getElem?_toArray, hcode, Option.getD_some]

variable [CommSemiring α] [Exact α] (h : Compiled.Reordered ns ns' ss ss')

include h

/-- A slot sums up the same in both orders, if the inputs agree by name. -/
theorem dot_reordered {precision : Precision} {rows r i j : Nat} {codes codes' : List Activation}
    {id : Value} {xs xs' : Array α} (hr : r < rows)
    (hxs : Compiled.Permuted (Compiled.flatten ns ss) (Compiled.flatten ns' ss') rows xs xs')
    (hi : (ns.map Neuron.id)[i]? = some id) (hj : (ns'.map Neuron.id)[j]? = some id) :
    Scalar.dot ns'.length xs' (r * ns'.length)
        (ofCompiled precision rows codes' (Compiled.flatten ns' ss')).weights (j * ns'.length) =
      Scalar.dot ns.length xs (r * ns.length)
        (ofCompiled precision rows codes (Compiled.flatten ns ss)).weights (i * ns.length) := by
  have hlt : i < ns.length := by simpa using (List.getElem?_eq_some_iff.mp hi).1
  have hlt' : j < ns'.length := by simpa using (List.getElem?_eq_some_iff.mp hj).1
  rw [dot_ofCompiled precision rows codes h.text h.nodup hlt,
    dot_ofCompiled precision rows codes' h.text' h.nodup' hlt', (h.neurons.map _).sum_eq]
  congr 1
  apply List.map_congr_left
  intro u hu
  rcases List.mem_iff_getElem?.mp (List.mem_map_of_mem (f := Neuron.id) hu) with ⟨s, hs⟩
  rcases h.exists_index hs with ⟨t, ht⟩
  have hfound := (h.find?_iff (α := α)).mpr hs
  have hfound' := (h.find?_iff' (α := α)).mpr ht
  rw [Compiled.place, Compiled.place, hfound, hfound', Option.getD_some, Option.getD_some]
  unfold Scalar.cell
  rw [h.cell_eq hs hi ht hj]
  exact congrArg (fun x => Option.getD x Scalar.zero * _) (hxs.cell r hr u.id s t hfound hfound')

/-- The response of a neuron is the same in both orders, if the inputs agree by name. -/
theorem response_reordered {precision : Precision} {rows r i j : Nat}
    {codes codes' : List Activation} {id : Value} {xs xs' : Array α} (hr : r < rows)
    (hcodes : (ns.map Neuron.activation).mapM Activation.ofValue = .ok codes)
    (hcodes' : (ns'.map Neuron.activation).mapM Activation.ofValue = .ok codes')
    (hxs : Compiled.Permuted (Compiled.flatten ns ss) (Compiled.flatten ns' ss') rows xs xs')
    (hi : (Compiled.flatten ns ss : Compiled α).index.find? id = some i)
    (hj : (Compiled.flatten ns' ss' : Compiled α).index.find? id = some j) :
    (ofCompiled precision rows codes' (Compiled.flatten ns' ss')).response ns'.length xs' r j =
      (ofCompiled precision rows codes (Compiled.flatten ns ss)).response ns.length xs r i := by
  rcases h.agree.neuron id i hi with ⟨k, bias, tag, hk, hbias, hbias', htag, htag'⟩
  obtain rfl : k = j := Option.some.inj (hk.symm.trans hj)
  have hcode : (ofCompiled precision rows codes' (Compiled.flatten ns' ss' : Compiled α)).codeAt k =
      (ofCompiled precision rows codes (Compiled.flatten ns ss : Compiled α)).codeAt i :=
    Except.ok.inj ((codeAt_ofCompiled hcodes' htag').trans (codeAt_ofCompiled hcodes htag).symm)
  have hcell : Scalar.cell
        (ofCompiled precision rows codes' (Compiled.flatten ns' ss' : Compiled α)).biases k =
      Scalar.cell
        (ofCompiled precision rows codes (Compiled.flatten ns ss : Compiled α)).biases i := by
    rw [ofCompiled, ofCompiled, allocate, allocate, Scalar.cell, Scalar.cell, Array.getElem?_map,
      Array.getElem?_map, hbias, hbias']
  rw [response, response, preactivation, preactivation, hcode, hcell,
    dot_reordered h hr hxs (h.find?_iff.mp hi) (h.find?_iff'.mp hj)]

end Arena

/-!
## Preparing and running
-/

namespace Backend

open Attempt

variable {ns ns' : List Neuron} {ss ss' : List Synapse}

/-- A graph that has been prepared is held in its arena. -/
theorem prepareCompiled_eq_ok {settings : TrainingSettings} {c : Compiled α} {batch : Number}
    {b b₁ : Backend α} (hb : b.Equipped settings)
    (h : (prepareCompiled c batch).outcome b = (.ok (), b₁)) :
    ∃ (rows : Nat) (codes : List Activation), batch = .whole rows ∧
      (Number.whole rows).less (.whole 1) = false ∧
      Machine.hasRoom b.host.memory c.size rows = true ∧
      c.activations.mapM Activation.ofValue = .ok codes ∧
      b₁ = b.loaded settings c.size rows c.weights c.biases codes := by
  have hless : batch.less (.whole 1) = false := by
    rcases outcome_bind_eq_ok h with ⟨_, _, -, h⟩
    rw [outcome_get_bind] at h
    rcases outcome_bind_eq_ok h with ⟨n, _, hcheck, -⟩
    have hcheck := (outcome_of_eq_ok hcheck).1
    rcases checkNetwork_eq_ok hcheck with ⟨codes, -, rfl⟩
    exact batch_of_checkNetwork hcheck
  rcases prepare_cases hb hless with ⟨f, b', hrun, -⟩ | ⟨rows, codes, rfl, hroom, hcodes, hrun⟩
  · rw [prepareCompiled, hrun] at h
    cases h
  · rw [prepareCompiled, hrun] at h
    exact ⟨rows, codes, rfl, hless, hroom, hcodes, (Prod.mk.inj h).2.symm⟩

theorem holds_compiled (settings : TrainingSettings) (codes : List Activation) {c : Compiled α}
    {rows : Nat} {b : Backend α} (hroom : Machine.hasRoom b.host.memory c.size rows = true) :
    (b.loaded settings c.size rows c.weights c.biases codes).Holds settings rows
      (Arena.ofCompiled settings.basePrecision rows codes c) :=
  holds_loaded hroom

theorem exists_codes_reordered (h : Compiled.Reordered ns ns' ss ss') {codes : List Activation}
    (hcodes : (ns.map Neuron.activation).mapM Activation.ofValue = .ok codes) :
    ∃ codes', (ns'.map Neuron.activation).mapM Activation.ofValue = .ok codes' := by
  apply exists_mapM_eq_ok
  intro tag htag
  have hmem := (h.neurons.map Neuron.activation).mem_iff.mp htag
  rcases List.mem_iff_getElem?.mp hmem with ⟨i, hi⟩
  rcases mapM_getElem? hcodes hi with ⟨f, hf, -⟩
  exact ⟨f, hf⟩

/--
Where names tell the neurons apart and no two synapses are parallel, a graph compiles to the same
by name in whatever order it is stored.  If one order can be prepared, then so can the other where
there is as much room, and with exact arithmetic inputs that agree by name give outputs that do.
-/
theorem compile_forward_reordered [CommSemiring α] [Exact α]
    (h : Compiled.Reordered ns ns' ss ss') :
    ∃ c c' : Compiled α, Compiled.compile ns ss = .ok c ∧ Compiled.compile ns' ss' = .ok c' ∧
      Compiled.Agree c c' ∧
      ∀ (settings : TrainingSettings) (batch : Number) (b b' b₁ : Backend α),
        b.Equipped settings → b'.Equipped settings →
        (∀ rows, Machine.hasRoom b.host.memory c.size rows →
          Machine.hasRoom b'.host.memory c.size rows) →
        (prepareCompiled c batch).outcome b = (.ok (), b₁) →
        ∃ b₁', (prepareCompiled c' batch).outcome b' = (.ok (), b₁') ∧
          ∀ xs xs', xs.size = c.size * b₁.batch → Compiled.Permuted c c' b₁.batch xs xs' →
            ∃ out out', ((forward (.ok xs)).outcome b₁).1 = .ok out ∧
              ((forward (.ok xs')).outcome b₁').1 = .ok out' ∧
              out.size = c.size * b₁.batch ∧ Compiled.Permuted c c' b₁.batch out out' := by
  refine ⟨Compiled.flatten ns ss, Compiled.flatten ns' ss', h.compile_eq.1, h.compile_eq.2, h.agree,
    ?_⟩
  intro settings batch b b' b₁ hb hb' hmemory hprepare
  rcases prepareCompiled_eq_ok hb hprepare with ⟨rows, codes, rfl, hless, hroom, hcodes, rfl⟩
  rcases exists_codes_reordered h hcodes with ⟨codes', hcodes'⟩
  have hroom' : Machine.hasRoom b'.host.memory (Compiled.flatten ns' ss' : Compiled α).size rows =
      true :=
    (congrArg (Machine.hasRoom _ · rows) h.length_eq).trans (hmemory rows hroom)
  have hprepare' := outcome_prepare_of_hasRoom hb' hless hroom'
    (Compiled.size_weights_flatten (α := α) ns' ss') (Compiled.size_biases_flatten ns' ss')
    (List.length_map _) hcodes'
  have hheld := holds_compiled settings codes hroom
  have hheld' := holds_compiled settings codes' hroom'
  refine ⟨_, hprepare', ?_⟩
  rw [hheld.batch_eq]
  intro xs xs' hsize hxs
  have hsize' : xs'.size = ns'.length * rows := by rw [hxs.size, hsize, h.length_eq]; rfl
  refine ⟨_, _, congrArg Prod.fst (hheld.forward_of_fits hsize),
    congrArg Prod.fst (hheld'.forward_of_fits hsize'), Arena.size_output_forward .., ?_, ?_⟩
  · rw [Arena.size_output_forward, Arena.size_output_forward]
    exact congrArg (· * rows) h.length_eq
  · intro r hr id i j hi hj
    have hlt : i < ns.length := by
      simpa using (List.getElem?_eq_some_iff.mp (h.find?_iff.mp hi)).1
    have hlt' : j < ns'.length := by
      simpa using (List.getElem?_eq_some_iff.mp (h.find?_iff'.mp hj)).1
    have hcell := Arena.getElem?_output_forward
      (Arena.ofCompiled settings.basePrecision rows codes (Compiled.flatten ns ss)) xs hr hlt
    have hcell' := Arena.getElem?_output_forward
      (Arena.ofCompiled settings.basePrecision rows codes' (Compiled.flatten ns' ss')) xs' hr hlt'
    rw [Arena.response_reordered h hr hcodes hcodes' hxs hi hj, ← hcell] at hcell'
    exact hcell'

/-- Two neurons that feed each other. -/
def circuit : List Neuron :=
  [{ id := .text "a", kind := .input, bias := 0.5, activation := .text "relu" },
   { id := .text "b", kind := .output, bias := 1.0, activation := .text "linear" }]

/-- A synapse each way, and two that lead from no neuron. -/
def circuitSynapses : List Synapse :=
  [{ id := .text "there", source := .text "a", target := .text "b", weight := 2.0 },
   { id := .text "lost", source := .text "x", target := .text "b", weight := 3.0 },
   { id := .text "back", source := .text "b", target := .text "a", weight := -1.0 },
   { id := .text "stray", source := .text "x", target := .text "b", weight := 4.0 }]

theorem reordered_circuit :
    Compiled.Reordered circuit circuit.reverse circuitSynapses circuitSynapses.reverse where
  text := by
    intro n hn
    rcases List.mem_pair.mp hn with rfl | rfl
    · exact ⟨"a", rfl⟩
    · exact ⟨"b", rfl⟩
  nodup := by simp [circuit]
  ends := by
    intro s hs
    simp only [circuitSynapses, List.mem_cons, List.not_mem_nil, or_false] at hs
    rcases hs with rfl | rfl | rfl | rfl
    all_goals exact ⟨rfl, rfl⟩
  single := by simp [Compiled.Single, circuit, circuitSynapses]
  neurons := List.reverse_perm _
  synapses := List.reverse_perm _

theorem permuted_circuit :
    Compiled.Permuted (Compiled.flatten circuit circuitSynapses : Compiled Rat)
      (Compiled.flatten circuit.reverse circuitSynapses.reverse) 1 #[1, 10] #[10, 1] where
  size := rfl
  cell := by
    intro r hr id i j hi hj
    obtain rfl : r = 0 := Nat.lt_one_iff.mp hr
    rw [reordered_circuit.find?_iff] at hi
    rw [reordered_circuit.find?_iff'] at hj
    rcases i with _ | _ | i
    · obtain rfl : Value.text "a" = id := Option.some.inj hi
      rcases j with _ | _ | j
      · simp [circuit] at hj
      · rfl
      · simp [circuit] at hj
    · obtain rfl : Value.text "b" = id := Option.some.inj hi
      rcases j with _ | _ | j
      · rfl
      · simp [circuit] at hj
      · simp [circuit] at hj
    · simp [circuit] at hi

/-- A backend that is ready for a network. -/
def standby : Backend Rat := init.after (dense {} .null .default)

theorem compile_forward_reordered_circuit :
    ∃ c c' : Compiled Rat, Compiled.compile circuit circuitSynapses = .ok c ∧
      Compiled.compile circuit.reverse circuitSynapses.reverse = .ok c' ∧ Compiled.Agree c c' ∧
      ∃ b b' : Backend Rat, (prepareCompiled c (.whole 1)).outcome standby = (.ok (), b) ∧
        (prepareCompiled c' (.whole 1)).outcome standby = (.ok (), b') ∧
        ∃ out out', ((forward (.ok #[1, 10])).outcome b).1 = .ok out ∧
          ((forward (.ok #[10, 1])).outcome b').1 = .ok out' ∧
          out.size = c.size * b.batch ∧ Compiled.Permuted c c' b.batch out out' := by
  have hready : standby.Equipped .default := ⟨⟨.nothing, rfl⟩, Nat.le_refl _⟩
  rcases compile_forward_reordered (α := Rat) reordered_circuit with
    ⟨c, c', hc, hc', hagree, hruns⟩
  obtain rfl : Compiled.flatten circuit circuitSynapses = c :=
    Except.ok.inj (reordered_circuit.compile_eq.1.symm.trans hc)
  obtain rfl : Compiled.flatten circuit.reverse circuitSynapses.reverse = c' :=
    Except.ok.inj (reordered_circuit.compile_eq.2.symm.trans hc')
  have hprepares : (prepareCompiled (Compiled.flatten circuit circuitSynapses : Compiled Rat)
      (.whole 1)).succeeds standby = true := by decide +kernel
  rcases outcome_of_succeeds hprepares with ⟨_, hprepare⟩
  rcases hruns .default (.whole 1) standby standby _ hready hready (fun _ h => h) hprepare with
    ⟨b', hprepare', hrun⟩
  have hbatch : ((prepareCompiled (Compiled.flatten circuit circuitSynapses : Compiled Rat)
      (.whole 1)).after standby).batch = 1 := by decide +kernel
  rw [hbatch] at hrun
  rcases hrun #[1, 10] #[10, 1] rfl permuted_circuit with ⟨out, out', hout⟩
  refine ⟨_, _, hc, hc', hagree, _, b', hprepare, hprepare', out, out', ?_⟩
  rw [hbatch]
  exact hout

end Backend
end Plexus
