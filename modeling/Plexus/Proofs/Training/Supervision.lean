import Plexus.Proofs.Engine.Learning
import Plexus.Proofs.Engine.Meaning
import Plexus.Proofs.Numeric.Loss
import Plexus.Proofs.Training.Order
import Plexus.Proofs.Training.Rate

/-!
# What a training tick is supervised by

A training tick finds its loss from the targets that the engine keeps, and its deltas from those
that the backend holds.  The two masks agree: in exact arithmetic, what is not supervised neither
enters the loss nor moves a parameter, and where no loss is left, nothing moves.
-/

namespace Plexus

open Finset (range)

/-!
## Slots that stand still
-/

namespace Arena

variable {α : Type} [Scalar α] [Field α] [ExactField α] {size rows : Nat}

/-- The delta of a slot is zero where it has no error. -/
theorem signal_eq_zero {a : Arena α} {xs targets : Array α} {r i : Nat}
    (h : Scalar.supervised (Scalar.cell targets (r * size + i)) = true →
      a.response size xs r i - Scalar.cell targets (r * size + i) = 0) :
    a.signal size xs targets r i = 0 := by
  unfold signal
  dsimp only
  split
  · next hsupervised => rw [ExactField.sub_eq, h hsupervised, Exact.mul_eq, zero_mul]
  · exact Exact.zero_eq

theorem signal_of_noTarget {a : Arena α} {xs targets : Array α} {r i : Nat}
    (h : Scalar.cell targets (r * size + i) = Scalar.noTarget) :
    a.signal size xs targets r i = 0 :=
  signal_eq_zero fun hsupervised => absurd h ((ExactField.supervised_iff _).mp hsupervised)

variable [Scalar.Storable α]

theorem descend_of_zero {precision : Precision} {w : α} (rate : α)
    (hw : Scalar.Rounded precision w) : descend precision rate w 0 = w := by
  have hstep : Scalar.mul rate 0 = (Scalar.zero : α) := by
    rw [Exact.mul_eq, mul_zero, Exact.zero_eq]
  rw [descend, hstep, Scalar.Storable.store_zero, ExactField.sub_eq, Exact.zero_eq, sub_zero,
    ExactField.store_of_rounded hw]

theorem store_eq_zero {precision : Precision} {x : α} (h : x = 0) :
    Scalar.store precision x = 0 := by
  rw [h, ← Exact.zero_eq, Scalar.Storable.store_zero]

theorem map_descend_of_zero {precision : Precision} {buffer : Array α} (rate : α) (k : Nat)
    (hrounded : ∀ x ∈ buffer, Scalar.Rounded precision x) :
    (buffer[k]?.map fun x => descend precision rate x 0) = buffer[k]? := by
  cases hcell : buffer[k]? with
  | none => rfl
  | some x =>
      rw [Option.map_some, descend_of_zero rate (hrounded x (Array.mem_of_getElem? hcell))]

/-- A slot without any delta keeps its weights. -/
theorem getElem?_weights_learn_of_still {a : Arena α} {t : TrainingBuffers α} {xs : Array α}
    {i s : Nat} (hi : i < size) (hs : s < size)
    (hstill : ∀ r < rows, a.signal size xs t.targets r i = 0)
    (hrounded : ∀ w ∈ a.weights, Scalar.Rounded a.precision w) :
    (a.learn size rows t xs).weights[i * size + s]? = a.weights[i * size + s]? := by
  rw [getElem?_weights_learn a t xs hi hs, Exact.sumTo_eq_zero]
  · exact map_descend_of_zero t.rate _ hrounded
  · intro r hr
    rw [store_eq_zero (hstill r hr), Exact.mul_eq, zero_mul]

theorem getElem?_biases_learn_of_still {a : Arena α} {t : TrainingBuffers α} {xs : Array α}
    {i : Nat} (hi : i < size) (hstill : ∀ r < rows, a.signal size xs t.targets r i = 0)
    (hrounded : ∀ x ∈ a.biases, Scalar.Rounded a.precision x) :
    (a.learn size rows t xs).biases[i]? = a.biases[i]? := by
  rw [getElem?_biases_learn a t xs hi,
    Exact.sumTo_eq_zero fun r hr => store_eq_zero (hstill r hr)]
  exact map_descend_of_zero t.rate _ hrounded

/-- Where no slot has a delta, the parameters stay as they are. -/
theorem learn_of_still {a : Arena α} {t : TrainingBuffers α} {xs : Array α}
    (hstill : ∀ r < rows, ∀ i < size, a.signal size xs t.targets r i = 0)
    (hweights : ∀ w ∈ a.weights, Scalar.Rounded a.precision w)
    (hbiases : ∀ x ∈ a.biases, Scalar.Rounded a.precision x)
    (hsize : a.weights.size ≤ size * size ∧ a.biases.size ≤ size) :
    (a.learn size rows t xs).weights = a.weights ∧ (a.learn size rows t xs).biases = a.biases := by
  constructor
  · refine eq_of_rows (size_weights_learn_le a t xs) hsize.1 fun i hi s hs => ?_
    exact getElem?_weights_learn_of_still hi hs (fun r hr => hstill r hr i hi) hweights
  · refine eq_of_cells_below (size_biases_learn_le a t xs) hsize.2 fun i hi => ?_
    exact getElem?_biases_learn_of_still hi (fun r hr => hstill r hr i hi) hbiases

end Arena

namespace Engine

open Attempt
open Value (IdClass)

variable {α : Type} {P : Value → Prop}

/-- The weight with which a slot takes another slot in. -/
def weight? (e : Engine α) (i s : Nat) : Option α :=
  e.parameters.bind fun p => p.1[i * e.size + s]?

def bias? (e : Engine α) (i : Nat) : Option α := e.parameters.bind fun p => p.2[i]?

theorem weight?_eq {e : Engine α} {weights biases : Array α}
    (h : e.parameters = some (weights, biases)) (i s : Nat) :
    e.weight? i s = weights[i * e.size + s]? := by
  rw [weight?, h]
  rfl

theorem bias?_eq {e : Engine α} {weights biases : Array α}
    (h : e.parameters = some (weights, biases)) (i : Nat) : e.bias? i = biases[i]? := by
  rw [bias?, h]
  rfl

variable [Scalar α]

/-- Whether no subscriber of an engine fails when a loss is reported. -/
def Attended (e : Engine α) : Prop :=
  ∀ x : α, (Audience.emit ⟨.loss, Scalar.toFloat x⟩).succeeds e.audience = true

/--
Whether inputs and targets are given, or kept, for every slot of every row.  Where no targets are
kept, training is prepared by the tick itself, which takes a rate.
-/
structure Provided (e : Engine α) (inputs targets : Option (Operand α)) : Prop where
  inputs : ∃ xs, inputs.getD (.ok e.staged) = .ok xs ∧ xs.size = e.size * e.batch
  targets : ∃ ts, e.aim targets = some ts ∧ ts.size = e.size * e.batch
  rate : e.targets = none → ∃ x, e.rate.toFloat = .ok x

variable {c : Compiled α} {rows : Nat} {a : Arena α} {b : Backend α} {e e' : Engine α}
  {inputs targets : Option (Operand α)} {t : TrainingBuffers α} {xs : Array α} {loss : α}

variable [Field α] [ExactField α]

/-- Once it has taken its targets over, a training tick succeeds; its loss comes of its errors. -/
theorem trainTick_of_retarget (hc : e.compiled = some c) (h : e.Fits c rows a b)
    (hwhole : Arena.cuts e.size e.training.rank = false) (hattended : e.Attended)
    (hretarget : (retarget targets).outcome e = (.ok (), e.aimed a b t))
    (ht : t.targets.size = e.size * e.batch) (hinputs : inputs.getD (.ok e.staged) = .ok xs)
    (hxs : xs.size = e.size * e.batch) :
    ∃ u, (trainTick inputs targets none).outcome e =
        (.ok ((∑ j ∈ range (e.size * e.batch),
          Loss.errorAt (a.forward e.size e.batch xs).output t.targets j) / Loss.divisor e.batch),
          u) ∧
      u.parameters = some ((a.learn e.size e.batch t xs).weights,
        (a.learn e.size e.batch t xs).biases) := by
  rw [h.size_eq hc, h.batch_eq] at ht hxs ⊢
  rw [h.size_eq hc] at hwhole
  have hloss := Loss.squared_eq_ok (Arena.size_output_forward a c.size rows xs) ht
    (Loss.divisor rows)
  rcases outcome_of_succeeds (hattended _) with ⟨⟨⟩, hemit⟩
  rcases trainTick_of_aimed hc h hwhole hretarget (h.backendSize.symm ▸ ht) hinputs hxs hloss
    hemit with ⟨u, hok, hparameters, -⟩
  exact ⟨u, hok, hparameters⟩

/-- With inputs and targets, a training tick succeeds. -/
theorem trainTick_of_provided (he : e.Equipped) (hc : e.compiled = some c)
    (h : e.Fits c rows a b) (hwhole : Arena.cuts e.size e.training.rank = false)
    (hprovided : e.Provided inputs targets) (hattended : e.Attended) :
    (trainTick inputs targets none).succeeds e = true := by
  rcases hprovided with ⟨⟨xs, hinputs, hxs⟩, ⟨ts, haim, hts⟩, hfresh⟩
  have hrate : ∃ x, e.rate.toFloat = .ok x := by
    cases hkept : e.targets with
    | none => exact hfresh hkept
    | some ts => exact he.rate (by rw [hkept]; rfl)
  have hfit : ts.size = b.size * rows := by
    rw [hts, h.batch_eq, h.engineSize_eq hc]
  rcases exists_retarget he hc h hrate haim hfit with ⟨t, rfl, hretarget⟩
  rcases trainTick_of_retarget hc h hwhole hattended hretarget hts hinputs hxs with ⟨u, hok, -⟩
  exact succeeds_of_ok (congrArg Prod.fst hok)

/-- A training tick whose loss, whose deltas and whose update agree on what is supervised. -/
structure Agreed [DecidableEq α] (e e' : Engine α) (outputs targets deltas : Array α) (loss : α) :
    Prop where
  still : ∀ i < e.size,
    (∀ r < e.batch, Scalar.cell targets (r * e.size + i) = Scalar.noTarget) →
      (∀ s < e.size, e'.weight? i s = e.weight? i s) ∧ e'.bias? i = e.bias? i
  loss_eq : loss =
    (∑ j ∈ range (e.batch * e.size) with Scalar.cell targets j ≠ Scalar.noTarget,
      (Scalar.cell outputs j - Scalar.cell targets j) ^ 2) / e.batch
  silent : ∀ j < e.batch * e.size, Scalar.cell targets j = Scalar.noTarget → deltas[j]? = some 0
  settled : loss = 0 → e'.parameters = e.parameters

variable [LinearOrder α] [IsStrictOrderedRing α]

/-- Where the loss is zero, no slot has a delta. -/
theorem signal_of_loss_eq_zero (ht : t.targets.size = c.size * rows)
    (hloss : Loss.squared (a.forward c.size rows xs).output t.targets (.ok (Loss.divisor rows)) =
      .ok (0 : α)) (hrows : 1 ≤ rows) {r i : Nat} (hr : r < rows) (hi : i < c.size) :
    a.signal c.size xs t.targets r i = 0 := by
  rw [Loss.squared_eq_ok (Arena.size_output_forward a c.size rows xs) ht, Loss.divisor_eq hrows,
    Except.ok.injEq, div_eq_zero_iff, or_iff_left (Nat.cast_ne_zero.mpr (by omega))] at hloss
  refine Arena.signal_eq_zero fun hsupervised => ?_
  rw [← Arena.cell_output_forward a xs hr hi]
  exact Loss.error_eq_zero hloss (Nat.mul_comm rows c.size ▸ cell_lt hr hi) hsupervised

variable [Scalar.Storable α]

/-- What an arena learns agrees with its loss. -/
theorem agreed_of_learn (hc : e.compiled = some c) (h : e.Fits c rows a b)
    (hrounded : e.Rounded) (hbounded : e.Bounded) (ht : t.targets.size = c.size * rows)
    (hloss : Loss.squared (a.forward c.size rows xs).output t.targets (.ok (Loss.divisor rows)) =
      .ok loss)
    (hsize : e'.size = e.size)
    (hparameters : e'.parameters =
      some ((a.learn c.size rows t xs).weights, (a.learn c.size rows t xs).biases)) :
    e.Agreed e' (a.forward c.size rows xs).output t.targets (a.learned c.size rows t xs) loss := by
  have hold := h.parameters_eq
  have hrows := h.one_le_rows
  rcases hrounded (by rw [hc]; rfl) _ _ hold with ⟨hweights, hbiases⟩
  rw [← h.holds.precision] at hweights hbiases
  constructor
  · intro i hi hidle
    rw [h.batch_eq] at hidle
    rw [h.size_eq hc] at hi hidle
    have hstill : ∀ r < rows, a.signal c.size xs t.targets r i = 0 :=
      fun r hr => Arena.signal_of_noTarget (hidle r hr)
    constructor
    · intro s hs
      rw [h.size_eq hc] at hs
      rw [weight?_eq hparameters, weight?_eq hold, hsize, h.size_eq hc]
      exact Arena.getElem?_weights_learn_of_still hi hs hstill hweights
    · rw [bias?_eq hparameters, bias?_eq hold]
      exact Arena.getElem?_biases_learn_of_still hi hstill hbiases
  · rw [Loss.squared_eq_ok (Arena.size_output_forward a c.size rows xs) ht,
      Loss.divisor_eq hrows, Loss.sum_errorAt, Except.ok.injEq] at hloss
    rw [h.batch_eq, h.size_eq hc, Nat.mul_comm rows c.size]
    exact hloss.symm
  · intro j hj hidle
    rw [h.batch_eq, h.size_eq hc] at hj
    rcases exists_cell hj with ⟨r, hr, i, hi, rfl⟩
    rw [Arena.getElem?_learned a t xs hr hi, Arena.signal_of_noTarget hidle,
      Arena.store_eq_zero rfl]
  · rintro rfl
    have hstill : ∀ r < rows, ∀ i < c.size, a.signal c.size xs t.targets r i = 0 :=
      fun r hr i hi => signal_of_loss_eq_zero ht hloss hrows hr hi
    have hlearn := Arena.learn_of_still hstill hweights hbiases (hbounded c _ _ hc hold)
    rw [hparameters, hold, hlearn.1, hlearn.2]

/--
A training tick without deltas of its own, and whose update is whole, succeeds wherever it has
inputs and targets.  Its loss is the sum of the squared errors of the supervised slots, divided by
the number of samples; elsewhere the deltas are zero.  A slot that is supervised in no row keeps
its weights and its bias, and a loss of zero leaves all of them as they are.
-/
theorem loss_and_update_agree {past : List (Engine α × Deed α)} (hP : IdClass P)
    (h : Course P past e) (hcompiled : e.compiled.isSome = true)
    (hwhole : Arena.cuts e.size e.training.rank = false) (inputs targets : Option (Operand α)) :
    (e.Provided inputs targets → e.Attended →
        (trainTick inputs targets none).succeeds e = true) ∧
      ∀ loss e', (trainTick inputs targets none).outcome e = (.ok loss, e') →
        ∃ outputs ts ds, ((tick inputs).outcome e).1 = .ok outputs ∧ e.aim targets = some ts ∧
          e'.deltas = some ds ∧ e.Agreed e' outputs ts ds loss := by
  have he := h.coherent hP
  rcases he.exists_fits hcompiled with ⟨c, rows, a, b, hc, hfits⟩
  refine ⟨trainTick_of_provided he.equipped hc hfits hwhole, fun loss e' hrun => ?_⟩
  rw [hfits.size_eq hc] at hwhole
  rcases trainTick_eq_ok he.equipped hc hfits hwhole hrun with
    ⟨t, xs, -, haim, ht, hinputs, hxs, hloss, hparameters, hdeltas⟩
  have hsize : e'.size = e.size := by
    have hafter := trainTick_cases he inputs targets none
    rw [after_of_outcome hrun] at hafter
    rcases hafter with hrested | htrained
    · exact hrested.calm.size_eq
    · rw [Engine.size, Engine.size, htrained.compiled]
  exact ⟨_, _, _, congrArg Prod.fst (outcome_tick hc hfits hinputs hxs), haim, hdeltas,
    agreed_of_learn hc hfits (h.invariant hP invariant_rounded) (h.invariant hP invariant_bounded)
      ht hloss hsize hparameters⟩

/-- Two neurons and the synapse between them, for two samples a tick. -/
def widePair : Engine Rat :=
  (Deed.act (.setTraining Trainer.inPairs)).perform.after (init.after pair)

theorem course_widePair : Course Value.IsText
    [(init.after pair, .act (.setTraining Trainer.inPairs))] widePair :=
  (Course.opened startable_pair (by decide +kernel)).step (.act (.setTraining Trainer.inPairs))
    trivial

theorem attended_widePair : widePair.Attended := fun _ => rfl

theorem loss_and_update_agree_widePair :
    ∃ loss e',
      (trainTick (some (.ok #[1, 10, 2, 20]))
          (some (.ok #[Scalar.noTarget, 1, Scalar.noTarget, Scalar.noTarget])) none).outcome
        widePair = (.ok loss, e') ∧
      (loss = 0 → e'.parameters = widePair.parameters) ∧
      e'.weight? 0 1 = widePair.weight? 0 1 ∧ e'.bias? 0 = widePair.bias? 0 := by
  rcases loss_and_update_agree Value.idClass_isText course_widePair (by decide +kernel)
    (by decide +kernel) (some (.ok #[1, 10, 2, 20]))
    (some (.ok #[Scalar.noTarget, 1, Scalar.noTarget, Scalar.noTarget])) with ⟨hsucceeds, hagreed⟩
  have hprovided : widePair.Provided (some (.ok #[1, 10, 2, 20]))
      (some (.ok #[Scalar.noTarget, 1, Scalar.noTarget, Scalar.noTarget])) :=
    ⟨⟨_, rfl, by decide +kernel⟩, ⟨_, rfl, by decide +kernel⟩, fun _ => ⟨_, rfl⟩⟩
  rcases outcome_of_succeeds (hsucceeds hprovided attended_widePair) with ⟨loss, hrun⟩
  rcases hagreed _ _ hrun with ⟨outputs, ts, ds, -, hts, -, hagreed⟩
  cases hts
  rcases hagreed.still 0 (by decide +kernel) (by decide +kernel) with ⟨hweights, hbias⟩
  exact ⟨loss, _, hrun, hagreed.settled, hweights 1 (by decide +kernel), hbias⟩

end Engine
end Plexus
