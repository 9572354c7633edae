import Plexus.Proofs.Backend.Refill
import Plexus.Proofs.Numeric.Exact

/-!
# What a training tick comes to

A training tick moves each parameter against its gradient.  Unless the update is cut down to a
rank, the gradient of a parameter is a sum over the rows, in their order, and depends on the delta
of its slot and on one input alone.  The operations of the scalars may be any.
-/

namespace Plexus

namespace Arena

variable {α : Type} [Scalar α] {size rows : Nat} {a : Arena α}

/-!
## Updates that are whole
-/

/-- A rank leaves an update whole if it is zero, or not less than the number of slots. -/
theorem cuts_eq_false_iff {rank : Int} :
    cuts size (.whole rank) = false ↔ rank ≤ 0 ∨ (size : Int) ≤ rank := by
  simp only [cuts, Number.less_whole_whole, Bool.and_eq_false_iff, decide_eq_false_iff_not,
    Int.not_lt]

theorem trained_of_whole {rank : Number} (h : cuts size rank = false) (t : TrainingBuffers α)
    (given : Option (Array α)) :
    a.trained size rows rank t given = .ok (a.train size rows none t given) := by
  simp only [trained, checkGradients, cutRank, h]
  rfl

/-- A whole update moves each weight against its own gradient. -/
theorem getElem?_weights_train {i s : Nat} (a : Arena α) (rows : Nat) (hi : i < size)
    (hs : s < size) (t : TrainingBuffers α) (given : Option (Array α)) :
    (a.train size rows none t given).weights[i * size + s]? =
      a.weights[i * size + s]?.map fun w => descend a.precision t.rate w
        (a.weightGradient size rows (a.deltasOf size rows t given) i s) := by
  show (a.weights.zipWith (descend a.precision t.rate)
    (a.weightGradients size rows (a.deltasOf size rows t given)))[i * size + s]? = _
  rw [Array.getElem?_zipWith, getElem?_weightGradients a rows _ hi hs]
  cases a.weights[i * size + s]? with
  | none => rfl
  | some w => rfl

/-- A whole update moves each bias against its own gradient. -/
theorem getElem?_biases_train {i : Nat} (a : Arena α) (rows : Nat) (hi : i < size)
    (t : TrainingBuffers α) (given : Option (Array α)) :
    (a.train size rows none t given).biases[i]? =
      a.biases[i]?.map fun x => descend a.precision t.rate x
        (biasGradient size rows (a.deltasOf size rows t given) i) := by
  show (a.biases.zipWith (descend a.precision t.rate)
    (biasGradients size rows (a.deltasOf size rows t given)))[i]? = _
  rw [Array.getElem?_zipWith, getElem?_biasGradients rows _ hi]
  cases a.biases[i]? with
  | none => rfl
  | some x => rfl

/-!
## Deltas
-/

/-- The delta of slot `i` of row `r`: the one that is given, or the one that the slot has. -/
def deltaAt (a : Arena α) (size : Nat) (targets : Array α) (given : Option (Array α))
    (r i : Nat) : α :=
  match given with
  | some ds => Scalar.cell ds (r * size + i)
  | none => a.delta size targets r i

/-- Deltas in single precision are kept as they are. -/
theorem cell_deltasOf {t : TrainingBuffers α} (h : t.precision = .fp32)
    (given : Option (Array α)) {r i : Nat} (hr : r < rows) (hi : i < size) :
    Scalar.cell (a.deltasOf size rows t given) (r * size + i) =
      a.deltaAt size t.targets given r i := by
  cases given with
  | some ds =>
      have hkept : ds.map (Scalar.store t.precision) = ds := by
        rw [h]
        exact Array.map_id ds
      show Scalar.cell (ds.map (Scalar.store t.precision)) _ = Scalar.cell ds _
      rw [hkept]
  | none =>
      show Scalar.cell (a.deltas size rows t) _ = a.delta size t.targets r i
      rw [Scalar.cell, getElem?_deltas a t hr hi, h]
      rfl

end Arena

namespace Backend

open Attempt

variable {α : Type} [Scalar α] {b : Backend α} {settings : TrainingSettings} {a : Arena α}
  {t : TrainingBuffers α}

omit [Scalar α] in
theorem outcome_readDeltas {given : Option (Array α)}
    (hmachine : b.machine = .dense settings (.network a)) (hstage : b.stage = .trainable)
    (hgiven : ∀ ds, given = some ds → b.fits ds = true) :
    (readDeltas (given.map Except.ok)).outcome b = (.ok given, b) := by
  rw [readDeltas, outcome_bind_of_ok (outcome_requireTraining (trainable_of_dense hmachine)),
    outcome_bind_of_ok (outcome_require_of_le (hstage.symm ▸ Nat.le_refl _) _)]
  cases given with
  | none => rfl
  | some ds =>
      simp only [Option.map_some, checkDeltas, checkTargets, outcome_bind, outcome_of, outcome_get,
        hgiven ds rfl, Bool.not_true, Bool.false_eq_true, if_false, outcome_pure]

/-- A training tick whose update is whole succeeds, and changes nothing but the arena. -/
theorem outcome_trainTick_of_whole {given : Option (Array α)}
    (hmachine : b.machine = .dense settings (.network a)) (hstage : b.stage = .trainable)
    (ht : a.training = some t) (hwhole : Arena.cuts b.size settings.rank = false)
    (hgiven : ∀ ds, given = some ds → b.fits ds = true) :
    (trainTick (given.map Except.ok)).outcome b =
      (.ok (), b.withArena settings (a.train b.size b.batch none t given)) := by
  rw [trainTick_eq, outcome_bind_of_ok (outcome_readDeltas hmachine hstage hgiven),
    outcome_descend hmachine ht, Arena.trained_of_whole hwhole]

/--
The delta rule.  A training tick whose update is whole succeeds.  It takes from each weight and
each bias the learning rate times its gradient, which adds up over the rows, in their order and
from zero, the deltas of its slot: times the input of the row for a weight, as they are for a bias.
The delta of a slot is the one that is given, or else what its target leaves of it.  Only the
parameters and the deltas are written.
-/
theorem trainTick_follows_delta_rule {given : Option (Array α)}
    (hmachine : b.machine = .dense settings (.network a)) (hstage : b.stage = .trainable)
    (ht : a.training = some t) (hsized : a.Sized b.size b.batch)
    (hwhole : Arena.cuts b.size settings.rank = false)
    (hbase : a.precision = .fp32) (hadapter : t.precision = .fp32)
    (hgiven : ∀ ds, given = some ds → b.fits ds = true) :
    ∃ weights biases deltas : Array α,
      (trainTick (given.map Except.ok)).outcome b =
        (.ok (), b.withArena settings
          { a with weights, biases, training := some { t with deltas } }) ∧
      weights.size = b.size * b.size ∧ biases.size = b.size ∧
      (∀ i < b.size, ∀ s < b.size, weights[i * b.size + s]? =
        some (Scalar.sub (Scalar.cell a.weights (i * b.size + s))
          (Scalar.mul t.rate (Scalar.sumTo b.batch fun r =>
            Scalar.mul (a.deltaAt b.size t.targets given r i)
              (Scalar.cell a.input (r * b.size + s)))))) ∧
      ∀ i < b.size, biases[i]? =
        some (Scalar.sub (Scalar.cell a.biases i)
          (Scalar.mul t.rate (Scalar.sumTo b.batch fun r =>
            a.deltaAt b.size t.targets given r i))) := by
  refine ⟨(a.train b.size b.batch none t given).weights,
    (a.train b.size b.batch none t given).biases, a.deltasOf b.size b.batch t given,
    outcome_trainTick_of_whole hmachine hstage ht hwhole hgiven, ?_, ?_, ?_, ?_⟩
  · show (a.weights.zipWith _ (a.weightGradients b.size b.batch _)).size = _
    rw [Array.size_zipWith, Arena.size_weightGradients, hsized.weights, Nat.min_self]
  · show (a.biases.zipWith _ (Arena.biasGradients b.size b.batch _)).size = _
    rw [Array.size_zipWith, Arena.size_biasGradients, hsized.biases, Nat.min_self]
  · intro i hi s hs
    have hgradient : a.weightGradient b.size b.batch (a.deltasOf b.size b.batch t given) i s =
        Scalar.sumTo b.batch fun r => Scalar.mul (a.deltaAt b.size t.targets given r i)
          (Scalar.cell a.input (r * b.size + s)) :=
      Scalar.sumTo_congr fun r hr => by rw [Arena.cell_deltasOf hadapter given hr hi]
    rw [Arena.getElem?_weights_train a b.batch hi hs,
      Scalar.getElem?_eq_cell (hsized.weights ▸ cell_lt hi hs), hgradient, hbase]
    rfl
  · intro i hi
    have hgradient : Arena.biasGradient b.size b.batch (a.deltasOf b.size b.batch t given) i =
        Scalar.sumTo b.batch fun r => a.deltaAt b.size t.targets given r i :=
      Scalar.sumTo_congr fun r hr => Arena.cell_deltasOf hadapter given hr hi
    rw [Arena.getElem?_biases_train a b.batch hi,
      Scalar.getElem?_eq_cell (hsized.biases.symm ▸ hi), hgradient, hbase]
    rfl

/-- Two slots that have run two rows, each of them supervised in one row. -/
def drilledArena : Arena Rat :=
  { weights := #[1, 2, 3, 4]
    biases := #[0, 1]
    input := #[1, 2, 3, 4]
    output := #[5, 6, 7, 8]
    dims := [2, 2]
    codes := #[.linear, .relu]
    staging := #[5, 6, 7, 8]
    training := some
      { deltas := Scalar.zeros 4
        targets := #[3, Scalar.noTarget, Scalar.noTarget, 10]
        rate := 1 / 2
        precision := .fp32 }
    precision := .fp32 }

/-- A backend that trains two slots on two rows. -/
def drilled : Backend Rat :=
  { (dense {} (.text "cpu") .default : Backend Rat) with
    stage := .trainable
    size := 2
    givenBatch := .whole 2
    machine := .dense .default (.network drilledArena) }

theorem trainTick_follows_delta_rule_drilled :
    ∃ weights biases deltas : Array Rat,
      (trainTick none).outcome drilled =
        (.ok (), drilled.withArena .default
          { drilledArena with
            weights, biases
            training := drilledArena.training.map fun t => { t with deltas } }) ∧
      weights[1]? = some (2 - 1 / 2 * ((5 - 3) * 2)) ∧
      biases[1]? = some (1 - 1 / 2 * (8 - 10)) := by
  have hsized : drilledArena.Sized drilled.size drilled.batch :=
    ⟨rfl, rfl, rfl, rfl, rfl, rfl, rfl, fun t ht => by cases ht; exact ⟨rfl, rfl⟩⟩
  have hwhole : Arena.cuts drilled.size (.whole 0) = false :=
    Arena.cuts_eq_false_iff.mpr (Or.inl (Int.le_refl 0))
  have hgiven : ∀ ds, (none : Option (Array Rat)) = some ds → drilled.fits ds = true := by
    intro ds h
    cases h
  rcases trainTick_follows_delta_rule (b := drilled) rfl rfl rfl hsized hwhole
      rfl rfl hgiven with
    ⟨weights, biases, deltas, hrun, -, -, hweights, hbiases⟩
  refine ⟨weights, biases, deltas, hrun, ?_, ?_⟩
  · refine (hweights 0 (by decide) 1 (by decide)).trans ?_
    decide +kernel
  · refine (hbiases 1 (by decide)).trans ?_
    decide +kernel

end Backend
end Plexus
