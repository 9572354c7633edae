import Plexus.Proofs.Training.Reshaping
import Plexus.Proofs.Training.Supervision

/-!
# Rows of padding

A batch that is not full is packed with rows of padding, on which the network runs as on any other
row.  In exact arithmetic they leave no trace: the padding has no targets, so that it has neither
errors nor deltas, and a training tick comes to the same parameters as one on the samples alone.
Only the loss is divided by the number of all rows.
-/

namespace Plexus

open Finset (range)

/-- Cells that begin with the rows of others, and go on with rows of padding. -/
structure Extends {α : Type} [Scalar α] (size few rows : Nat) (padding : α) (ys xs : Array α) :
    Prop where
  room : few ≤ rows
  size_few : ys.size = few * size
  size_rows : xs.size = rows * size
  taken : ∀ r < few, ∀ i < size, Scalar.cell xs (r * size + i) = Scalar.cell ys (r * size + i)
  padded : ∀ r, few ≤ r → r < rows → ∀ i < size, Scalar.cell xs (r * size + i) = padding

/-!
## Learning from them
-/

namespace Arena

variable {α : Type} [Scalar α] {size few rows : Nat} {a a' : Arena α} {xs ys ts us : Array α}

/-- Whether two arenas hold the same network. -/
structure SameNetwork (a a' : Arena α) : Prop where
  weights : a'.weights = a.weights
  biases : a'.biases = a.biases
  codes : a'.codes = a.codes
  precision : a'.precision = a.precision

theorem SameNetwork.response_eq (h : a.SameNetwork a')
    (hinputs : Extends size few rows Scalar.zero ys xs) {r : Nat} (hr : r < few) (i : Nat) :
    a'.response size ys r i = a.response size xs r i := by
  have hdot : Scalar.dot size ys (r * size) a.weights (i * size) =
      Scalar.dot size xs (r * size) a.weights (i * size) :=
    Scalar.sumTo_congr fun s hs => by rw [hinputs.taken r hr s hs]
  rw [response, response, preactivation, preactivation, codeAt, codeAt, h.weights, h.biases,
    h.codes, hdot]

theorem SameNetwork.signal_eq (h : a.SameNetwork a')
    (hinputs : Extends size few rows Scalar.zero ys xs)
    (htargets : Extends size few rows Scalar.noTarget us ts) {r i : Nat} (hr : r < few)
    (hi : i < size) : a'.signal size ys us r i = a.signal size xs ts r i := by
  rw [signal, signal, h.response_eq hinputs hr, htargets.taken r hr i hi, codeAt, codeAt, h.codes]

variable [Field α] [ExactField α] {t t' : TrainingBuffers α}

/-- Rows of padding have no deltas. -/
theorem signal_of_padding (htargets : Extends size few rows Scalar.noTarget us ts) {r i : Nat}
    (hfew : few ≤ r) (hr : r < rows) (hi : i < size) : a.signal size xs ts r i = 0 :=
  signal_of_noTarget (htargets.padded r hfew hr i hi)

/-- Summands without a delta can be left out. -/
theorem SameNetwork.sumTo_eq (h : a.SameNetwork a')
    (hinputs : Extends size few rows Scalar.zero ys xs)
    (htargets : Extends size few rows Scalar.noTarget us ts) {i : Nat} (hi : i < size)
    {f g : Nat → α → α} (hfg : ∀ r < few, ∀ x, g r x = f r x) (hf : ∀ r, f r 0 = 0) :
    Scalar.sumTo few (fun r => g r (a'.signal size ys us r i)) =
      Scalar.sumTo rows fun r => f r (a.signal size xs ts r i) := by
  rcases Nat.exists_eq_add_of_le htargets.room with ⟨more, rfl⟩
  rw [Exact.sumTo_add_of_zero]
  · exact Scalar.sumTo_congr fun r hr => by
      rw [h.signal_eq hinputs htargets hr hi, hfg r hr]
  -- The network answers on rows of padding too, but nothing there supervises it.
  · intro r hfew hr
    rw [signal_of_padding htargets hfew hr hi, hf]

/-- A training tick on rows of padding besides the samples learns what one on the samples does. -/
theorem SameNetwork.learn_eq (h : a.SameNetwork a')
    (hinputs : Extends size few rows Scalar.zero ys xs)
    (htargets : Extends size few rows Scalar.noTarget t'.targets t.targets)
    (hrate : t'.rate = t.rate) (hprecision : t.precision = .fp32)
    (hprecision' : t'.precision = .fp32) :
    (a'.learn size few t' ys).weights = (a.learn size rows t xs).weights ∧
      (a'.learn size few t' ys).biases = (a.learn size rows t xs).biases := by
  constructor
  · refine eq_of_rows (size_weights_learn_le _ _ _) (size_weights_learn_le _ _ _)
      fun i hi s hs => ?_
    rw [getElem?_weights_learn a' t' ys hi hs, getElem?_weights_learn a t xs hi hs, h.weights,
      h.precision, hrate, hprecision, hprecision']
    simp only [Scalar.store_fp32]
    have hsum : (Scalar.sumTo few fun r => Scalar.mul (a'.signal size ys t'.targets r i)
        (Scalar.cell ys (r * size + s))) =
        Scalar.sumTo rows fun r => Scalar.mul (a.signal size xs t.targets r i)
          (Scalar.cell xs (r * size + s)) := by
      refine h.sumTo_eq (g := fun r d => Scalar.mul d (Scalar.cell ys (r * size + s)))
        (f := fun r d => Scalar.mul d (Scalar.cell xs (r * size + s))) hinputs htargets hi ?_ ?_
      · intro r hr d
        rw [hinputs.taken r hr s hs]
      · intro r
        rw [Exact.mul_eq, zero_mul]
    rw [hsum]
  · refine eq_of_cells_below (size_biases_learn_le _ _ _) (size_biases_learn_le _ _ _)
      fun i hi => ?_
    rw [getElem?_biases_learn a' t' ys hi, getElem?_biases_learn a t xs hi, h.biases,
      h.precision, hrate, hprecision, hprecision']
    simp only [Scalar.store_fp32]
    have hsum : (Scalar.sumTo few fun r => a'.signal size ys t'.targets r i) =
        Scalar.sumTo rows fun r => a.signal size xs t.targets r i :=
      h.sumTo_eq (g := fun _ d => d) (f := fun _ d => d) hinputs htargets hi
        (fun _ _ _ => rfl) fun _ => rfl
    rw [hsum]

/-- Rows of padding have no errors. -/
theorem SameNetwork.sum_errorAt_eq (h : a.SameNetwork a')
    (hinputs : Extends size few rows Scalar.zero ys xs)
    (htargets : Extends size few rows Scalar.noTarget us ts) :
    ∑ j ∈ range (few * size), Loss.errorAt (a'.forward size few ys).output us j =
      ∑ j ∈ range (rows * size), Loss.errorAt (a.forward size rows xs).output ts j := by
  have hroom : few * size ≤ rows * size := Nat.mul_le_mul_right size htargets.room
  have hsamples : ∀ j ∈ range (few * size),
      Loss.errorAt (a'.forward size few ys).output us j =
        Loss.errorAt (a.forward size rows xs).output ts j := by
    intro j hj
    rcases exists_cell (Finset.mem_range.mp hj) with ⟨r, hr, i, hi, rfl⟩
    have hrow : r < rows := Nat.lt_of_lt_of_le hr htargets.room
    rw [Loss.errorAt, Loss.errorAt, cell_output_forward a' ys hr hi,
      cell_output_forward a xs hrow hi, h.response_eq hinputs hr, htargets.taken r hr i hi]
  rw [Finset.sum_congr rfl hsamples]
  refine Finset.sum_subset (Finset.range_subset_range.mpr hroom) fun j hj hpadding => ?_
  rcases exists_cell (Finset.mem_range.mp hj) with ⟨r, hr, i, hi, rfl⟩
  have hfew : few ≤ r := by
    by_contra hsample
    exact hpadding (Finset.mem_range.mpr (cell_lt (Nat.not_le.mp hsample) hi))
  exact Loss.errorAt_of_noTarget (htargets.padded r hfew hr i hi)

end Arena

namespace Trainer

open Attempt

variable {α : Type} [Scalar α] {samples : List (Sample α)} {size few rows : Nat}

/-- What samples are packed as, in a batch that they fill and in one that has more rows. -/
theorem extends_stretched (hcount : samples.length = few) (hroom : few ≤ rows) (padding : α)
    (part : Sample α → Array α) :
    Extends size few rows padding (stretched size few padding part samples)
      (stretched size rows padding part samples) := by
  have hfew : Padded size few padding _ (stretched size few padding part samples) :=
    padded_stretched (Nat.le_of_eq hcount) padding part
  have hmore : Padded size rows padding _ (stretched size rows padding part samples) :=
    padded_stretched (hcount.symm ▸ hroom) padding part
  refine ⟨hroom, hfew.length, hmore.length, fun r hr i hi => ?_, fun r hr hrow i hi => ?_⟩
  · obtain ⟨row, hrow⟩ : ∃ row, (samples.map fun s => stretch size (part s))[r]? = some row := by
      rw [← Option.isSome_iff_exists, List.getElem?_eq_getElem]
      · rfl
      · rw [List.length_map, hcount]
        exact hr
    rw [Scalar.cell, Scalar.cell, hmore.taken r row hrow i hi, hfew.taken r row hrow i hi]
  · rw [Scalar.cell, hmore.padded r (by rw [List.length_map, hcount]; exact hr) hrow i hi]
    rfl

/-- Samples that can be packed into a batch can be packed into any other. -/
theorem pack_of_pack {packed : Sample α} (h : pack size rows samples = .ok packed) (batch : Nat) :
    pack size batch samples = .ok {
      inputs := stretched size batch Scalar.zero Sample.inputs samples
      targets := stretched size batch Scalar.noTarget Sample.targets samples } := by
  rw [pack] at h ⊢
  rcases bind_eq_ok h with ⟨inputs, hinputs, h⟩
  rcases bind_eq_ok h with ⟨targets, htargets, -⟩
  rw [hinputs, htargets, (mapM_fitRow_eq_ok hinputs).2, (mapM_fitRow_eq_ok htargets).2]
  rfl

end Trainer

/-!
## Training ticks
-/

namespace Engine

open Attempt
open Value (IdClass)

variable {α : Type} {P : Value → Prop} [Scalar α]

/-- Whether a training tick of an engine updates all of its parameters, and nobody stops it. -/
structure TrainsWhole (e : Engine α) : Prop where
  compiled : e.compiled.isSome = true
  whole : Arena.cuts e.size e.training.rank = false
  attended : e.Attended

/-- Engines that train the same network alike, if not on the same number of samples a tick. -/
structure Counterparts (e e' : Engine α) (rate : α) : Prop where
  neurons : e'.neurons = e.neurons
  parameters : e'.parameters = e.parameters
  precision : e'.training.basePrecision = e.training.basePrecision
  terms : e.terms = some (rate, .fp32)
  terms' : e'.terms = some (rate, .fp32)

variable {c c' : Compiled α} {rows few : Nat} {a a' : Arena α} {b b' : Backend α}
  {e e' : Engine α} {rate : α}

theorem Counterparts.sameNetwork (h : e.Counterparts e' rate) (hfits : e.Fits c rows a b)
    (hfits' : e'.Fits c' few a' b') : a.SameNetwork a' := by
  have hparameters := h.parameters
  rw [hfits.parameters_eq, hfits'.parameters_eq, Option.some.injEq, Prod.mk.injEq] at hparameters
  have htags := hfits'.tags
  rw [h.neurons, hfits.tags, Except.ok.injEq] at htags
  exact ⟨hparameters.1, hparameters.2, (Array.toList_inj.mp htags).symm,
    hfits'.holds.precision.trans (h.precision.trans hfits.holds.precision.symm)⟩

theorem Counterparts.size_eq (h : e.Counterparts e' rate) (htrains : e.TrainsWhole)
    (htrains' : e'.TrainsWhole) (he : e.Coherent P) (he' : e'.Coherent P) : e'.size = e.size := by
  rcases he.exists_fits htrains.compiled with ⟨c, rows, a, b, hc, hfits⟩
  rcases he'.exists_fits htrains'.compiled with ⟨c', few, a', b', hc', hfits'⟩
  rw [hfits'.size_eq hc', hfits.size_eq hc, hfits'.size, hfits.size, h.neurons]

variable [Field α] [ExactField α] [CharZero α] {xs ts : Array α}

/-- A training tick on inputs and targets that fit, at a rate and in single precision. -/
theorem TrainsWhole.exists_trainTick (h : e.TrainsWhole) (hc : e.compiled = some c)
    (hfits : e.Fits c rows a b) (hterms : e.terms = some (rate, .fp32))
    (hxs : xs.size = e.batch * e.size) (hts : ts.size = e.batch * e.size) :
    ∃ (t : TrainingBuffers α) (loss : α) (u : Engine α), t.targets = ts ∧ t.rate = rate ∧
      t.precision = .fp32 ∧
      (trainTick (some (.ok xs)) (some (.ok ts)) none).outcome e = (.ok loss, u) ∧
      u.parameters = some ((a.learn e.size e.batch t xs).weights,
        (a.learn e.size e.batch t xs).biases) ∧
      e.batch * loss = ∑ j ∈ range (e.batch * e.size),
        Loss.errorAt (a.forward e.size e.batch xs).output ts j := by
  have hrows : 1 ≤ e.batch := hfits.batch_eq.symm ▸ hfits.one_le_rows
  have hinputs : (some (.ok xs) : Option (Operand α)).getD (.ok e.staged) = .ok xs := rfl
  rw [Nat.mul_comm] at hxs hts ⊢
  have hfit : ts.size = b.size * rows := by
    rw [hts, hfits.batch_eq, hfits.engineSize_eq hc]
  rcases retarget_of_fits hc hfits hfit hterms with ⟨t, rfl, hrate, hprecision, hretarget⟩
  rcases trainTick_of_retarget hc hfits h.whole h.attended hretarget hts hinputs hxs with
    ⟨u, hok, hparameters⟩
  refine ⟨t, _, u, rfl, hrate, hprecision, hok, hparameters, ?_⟩
  rw [Loss.divisor_eq hrows, mul_div_cancel₀ _ (Nat.cast_ne_zero.mpr (by omega))]

/-- Training ticks on the same rows, with and without padding after them. -/
theorem Counterparts.exists_trainTicks (h : e.Counterparts e' rate) (htrains : e.TrainsWhole)
    (htrains' : e'.TrainsWhole) (he : e.Coherent P) (he' : e'.Coherent P) {ys us : Array α}
    (hinputs : Extends e.size e'.batch e.batch Scalar.zero ys xs)
    (htargets : Extends e.size e'.batch e.batch Scalar.noTarget us ts) :
    ∃ (loss loss' : α) (u u' : Engine α),
      (trainTick (some (.ok xs)) (some (.ok ts)) none).outcome e = (.ok loss, u) ∧
      (trainTick (some (.ok ys)) (some (.ok us)) none).outcome e' = (.ok loss', u') ∧
      u'.parameters = u.parameters ∧ e.batch * loss = e'.batch * loss' := by
  rcases he.exists_fits htrains.compiled with ⟨c, rows, a, b, hc, hfits⟩
  rcases he'.exists_fits htrains'.compiled with ⟨c', few, a', b', hc', hfits'⟩
  have hnetwork := h.sameNetwork hfits hfits'
  have hsize := h.size_eq htrains htrains' he he'
  rcases htrains.exists_trainTick hc hfits h.terms hinputs.size_rows htargets.size_rows with
    ⟨t, loss, u, rfl, hrate, hprecision, hrun, hparameters, hloss⟩
  rcases htrains'.exists_trainTick hc' hfits' h.terms' (hsize ▸ hinputs.size_few)
    (hsize ▸ htargets.size_few) with
    ⟨t', loss', u', rfl, hrate', hprecision', hrun', hparameters', hloss'⟩
  rw [hsize] at hparameters' hloss'
  refine ⟨loss, loss', u, u', hrun, hrun', ?_, ?_⟩
  · rcases hnetwork.learn_eq hinputs htargets (hrate'.trans hrate.symm) hprecision hprecision' with
      ⟨hweights, hbiases⟩
    rw [hparameters', hparameters, hweights, hbiases]
  · rw [hloss, hloss', hnetwork.sum_errorAt_eq hinputs htargets]

/--
Padding is neutral.  Some samples are packed into a batch that has at least as many rows.  A
training tick on it leaves the parameters that one leaves on a batch that the samples fill, and
the losses differ by the number of rows that they are divided by.
-/
theorem padding_neutral {past past' : List (Engine α × Deed α)} {samples : List (Sample α)}
    {packed : Sample α} (hP : IdClass P) (h : Course P past e) (h' : Course P past' e')
    (htrains : e.TrainsWhole) (htrains' : e'.TrainsWhole) (hcounterparts : e.Counterparts e' rate)
    (hcount : samples.length = e'.batch) (hroom : e'.batch ≤ e.batch)
    (hpacks : Trainer.pack e.size e.batch samples = .ok packed) :
    ∃ (packed' : Sample α) (loss loss' : α) (u u' : Engine α),
      Trainer.pack e'.size e'.batch samples = .ok packed' ∧
      (trainTick (some (.ok packed.inputs)) (some (.ok packed.targets)) none).outcome e =
        (.ok loss, u) ∧
      (trainTick (some (.ok packed'.inputs)) (some (.ok packed'.targets)) none).outcome e' =
        (.ok loss', u') ∧
      u'.parameters = u.parameters ∧ e.batch * loss = e'.batch * loss' := by
  have he := h.coherent hP
  have he' := h'.coherent hP
  rcases Trainer.pack_stretched hpacks with ⟨-, hinputs, htargets⟩
  rcases hcounterparts.exists_trainTicks htrains htrains' he he'
    (hinputs ▸ Trainer.extends_stretched hcount hroom _ Sample.inputs)
    (htargets ▸ Trainer.extends_stretched hcount hroom _ Sample.targets) with
    ⟨loss, loss', u, u', hticks⟩
  rw [hcounterparts.size_eq htrains htrains' he he']
  exact ⟨_, loss, loss', u, u', Trainer.pack_of_pack hpacks e'.batch, hticks⟩

/-- A sample that supervises the second of two neurons. -/
def lesson : Sample Rat := ⟨#[1, 10], #[Scalar.noTarget, 1]⟩

theorem trainsWhole_widePair : widePair.TrainsWhole :=
  ⟨by decide +kernel, by decide +kernel, attended_widePair⟩

theorem trainsWhole_pair : (init.after pair).TrainsWhole :=
  ⟨by decide +kernel, by decide +kernel, fun _ => rfl⟩

theorem counterparts_widePair : widePair.Counterparts (init.after pair) (Scalar.ofFloat 0.01) :=
  ⟨rfl, by decide +kernel, by decide +kernel, by decide +kernel, by decide +kernel⟩

theorem padding_neutral_widePair :
    ∃ (packed packed' : Sample Rat) (loss loss' : Rat) (u u' : Engine Rat),
      Trainer.pack 2 2 [lesson] = .ok packed ∧ Trainer.pack 2 1 [lesson] = .ok packed' ∧
      (trainTick (some (.ok packed.inputs)) (some (.ok packed.targets)) none).outcome widePair =
        (.ok loss, u) ∧
      (trainTick (some (.ok packed'.inputs)) (some (.ok packed'.targets)) none).outcome
        (init.after pair) = (.ok loss', u') ∧
      u'.parameters = u.parameters ∧ 2 * loss = loss' := by
  have hsize : widePair.size = 2 ∧ (init.after pair).size = 2 := by decide +kernel
  have hbatch : widePair.batch = 2 ∧ (init.after pair).batch = 1 := by decide +kernel
  have hwide : ∀ s ∈ [lesson], s.inputs.size = 2 ∧ s.targets.size = 2 := by decide
  have hpacks := Trainer.pack_eq_ok widePair.batch (hsize.1.symm ▸ hwide)
  have hpair : Course Value.IsText [] (init.after pair) :=
    .opened startable_pair (by decide +kernel)
  rcases padding_neutral Value.idClass_isText course_widePair hpair trainsWhole_widePair
    trainsWhole_pair counterparts_widePair (by decide +kernel) (by decide +kernel) hpacks with
    ⟨packed', loss, loss', u, u', hpacks', hrun, hrun', hparameters, hloss⟩
  rw [hsize.1, hbatch.1] at hpacks
  rw [hsize.2, hbatch.2] at hpacks'
  rw [hbatch.1, hbatch.2, Nat.cast_ofNat, Nat.cast_one, one_mul] at hloss
  exact ⟨_, packed', loss, loss', u, u', hpacks, hpacks', hrun, hrun', hparameters, hloss⟩

end Engine
end Plexus
