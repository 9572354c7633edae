import Mathlib.Algebra.Order.BigOperators.Group.Finset
import Mathlib.Algebra.Order.Field.Rat
import Mathlib.Tactic.Ring
import Plexus.Numeric.Loss
import Plexus.Proofs.Numeric.Exact
import Plexus.Proofs.Numeric.Storage

/-!
# Losses in exact arithmetic

The loss of a tick is the total of the squared errors of the supervised slots, divided by the
number of samples.  Totals are built up from partial totals, and only the slots that are supervised
enter.  In exact arithmetic neither matters: the loss is a sum over cells.
-/

namespace Plexus

open Finset (range)

/-- Scalars that are computed with as in a field. -/
class ExactField (α : Type) [Scalar α] [Field α] : Prop extends Exact α where
  sub_eq : ∀ x y : α, Scalar.sub x y = x - y
  div_eq : ∀ x y : α, Scalar.div x y = x / y
  ofNat_eq : ∀ n : Nat, (Scalar.ofNat n : α) = n
  same_iff : ∀ x y : α, Scalar.same x y = true ↔ x = y

instance : ExactField Rat where
  sub_eq := fun _ _ => rfl
  div_eq := fun _ _ => rfl
  ofNat_eq := fun _ => rfl
  same_iff := fun _ _ => decide_eq_true_iff

/-- Rational numbers are stored as they are. -/
instance : Scalar.Storable Rat where
  store_zero p := by cases p <;> rfl
  like_store p x y _ hlike := by cases p <;> exact hlike

namespace ExactField

variable {α : Type} [Scalar α] [Field α] [ExactField α]

theorem eq_of_like {x y : α} (h : Scalar.Like x y) : x = y := by
  rcases h with hsame | ⟨hnan, -⟩
  · exact (same_iff _ _).mp hsame
  · rw [Scalar.isNaN, (same_iff x x).mpr rfl] at hnan
    cases hnan

theorem store_of_rounded [Scalar.Storable α] {p : Precision} {x : α} (h : Scalar.Rounded p x) :
    Scalar.store p x = x :=
  eq_of_like (Scalar.Storable.like_store p x x h (Scalar.Like.refl x))

/-- What was read from a double can be put into one and read again. -/
theorem ofFloat_toFloat_ofFloat [Scalar.Rereadable α] (d : Float) :
    Scalar.ofFloat (Scalar.toFloat (Scalar.ofFloat d : α)) = (Scalar.ofFloat d : α) :=
  eq_of_like (Scalar.Rereadable.like_reread d)

theorem supervised_iff (target : α) :
    Scalar.supervised target = true ↔ target ≠ Scalar.noTarget := by
  rw [Scalar.supervised, Bool.not_eq_true', ← Bool.not_eq_true, same_iff]

end ExactField

/-!
## Sums and totals
-/

namespace Exact

variable {α : Type} [Scalar α] [CommSemiring α] [Exact α]

theorem foldl_add (z : α) (xs : List α) : xs.foldl Scalar.add z = z + xs.sum := by
  induction xs generalizing z with
  | nil => exact (add_zero z).symm
  | cons x xs ih => rw [List.foldl_cons, ih, add_eq, List.sum_cons, add_assoc]

theorem sumList_eq_sum (xs : List α) : Scalar.sumList xs = xs.sum := by
  rw [Scalar.sumList, foldl_add, zero_eq, zero_add]

/-- Eight lanes side by side add up all numbers. -/
theorem totalLanes_eq_sum (a b c d e f g h : α) (xs : List α) :
    Scalar.totalLanes a b c d e f g h xs = [a, b, c, d, e, f, g, h].sum + xs.sum := by
  induction a, b, c, d, e, f, g, h, xs using Scalar.totalLanes.induct with
  | case1 a b c d e f g h a' b' c' d' e' f' g' h' rest ih =>
      rw [Scalar.totalLanes, ih]
      simp only [add_eq, List.sum_cons, List.sum_nil]
      ring
  | case2 a b c d e f g h rest hshort =>
      rw [Scalar.totalLanes, foldl_add]
      · simp only [add_eq, List.sum_cons, List.sum_nil]
        ring
      · exact hshort

theorem totalBlock_eq_sum (xs : List α) : Scalar.totalBlock xs = xs.sum := by
  unfold Scalar.totalBlock
  split
  · rw [totalLanes_eq_sum]
    simp only [List.sum_cons, List.sum_nil]
    ring
  · exact sumList_eq_sum xs

theorem total_eq_sum (xs : List α) : Scalar.total xs = xs.sum := by
  induction xs using Scalar.total.induct with
  | case1 xs hblock => rw [Scalar.total, if_pos hblock, totalBlock_eq_sum]
  | case2 xs hlong ihtake ihdrop =>
      rw [Scalar.total, if_neg hlong, ihtake, ihdrop, add_eq, List.sum_take_add_sum_drop]

/-- Summands that are zero can be left out at the end. -/
theorem sumTo_add_of_zero {f : Nat → α} {n m : Nat} (h : ∀ i, n ≤ i → i < n + m → f i = 0) :
    Scalar.sumTo (n + m) f = Scalar.sumTo n f := by
  induction m with
  | zero => rfl
  | succ m ih =>
      rw [← Nat.add_assoc, Scalar.sumTo_succ, add_eq, h (n + m) (Nat.le_add_right n m) (by omega),
        add_zero]
      exact ih fun i hi hlt => h i hi (by omega)

theorem sumTo_eq_zero {f : Nat → α} {n : Nat} (h : ∀ i < n, f i = 0) : Scalar.sumTo n f = 0 := by
  rw [← Nat.zero_add n, sumTo_add_of_zero fun i _ hi => h i (by omega), Scalar.sumTo_zero, zero_eq]

end Exact

/-!
## Losses
-/

namespace Loss

variable {α : Type} [Scalar α]

/-- The squared error of a slot, if its target supervises it. -/
def errorAt [Field α] (outputs targets : Array α) (i : Nat) : α :=
  if Scalar.supervised (Scalar.cell targets i) then
    (Scalar.cell outputs i - Scalar.cell targets i) ^ 2
  else 0

theorem toList_eq_map_cell {xs : Array α} {n : Nat} (h : xs.size = n) :
    xs.toList = (List.range n).map (Scalar.cell xs) := by
  have hcells : ∀ i u, xs.toList[i]? = some u → id u = Scalar.cell xs i := by
    intro i u hu
    rw [Array.getElem?_toList] at hu
    rw [Scalar.cell, hu]
    rfl
  rw [← h, ← Array.length_toList, ← map_eq_map_range hcells, List.map_id]

theorem errors_eq {outputs targets : Array α} {n : Nat} (houtputs : outputs.size = n)
    (htargets : targets.size = n) :
    errors outputs.toList targets.toList =
      ((List.range n).filter fun i => Scalar.supervised (Scalar.cell targets i)).map fun i =>
        squaredError (Scalar.cell outputs i) (Scalar.cell targets i) := by
  rw [toList_eq_map_cell houtputs, toList_eq_map_cell htargets, errors, List.zip_map',
    List.filter_map, List.map_map]
  rfl

variable [Field α] [ExactField α]

theorem sum_errors {outputs targets : Array α} {n : Nat} (houtputs : outputs.size = n)
    (htargets : targets.size = n) :
    (errors outputs.toList targets.toList).sum = ∑ i ∈ range n, errorAt outputs targets i := by
  have hsquare : ∀ i, squaredError (Scalar.cell outputs i) (Scalar.cell targets i) =
      (Scalar.cell outputs i - Scalar.cell targets i) ^ 2 := by
    intro i
    rw [squaredError, ExactField.sub_eq, Exact.mul_eq, pow_two]
  rw [errors_eq houtputs htargets]
  simp only [hsquare, errorAt]
  rw [← Finset.sum_filter, List.filter_congr fun i _ => Bool.decide_eq_true.symm]
  rfl

/-- The loss is the sum of the squared errors over the supervised slots, divided. -/
theorem squared_eq_ok {outputs targets : Array α} {n : Nat} (houtputs : outputs.size = n)
    (htargets : targets.size = n) (divisor : α) :
    squared outputs targets (.ok divisor) =
      .ok ((∑ i ∈ range n, errorAt outputs targets i) / divisor) := by
  rw [squared]
  by_cases hany : targets.toList.any Scalar.supervised = true
  · rw [hany, Bool.not_true, if_neg Bool.false_ne_true,
      if_neg (not_not.mpr (houtputs.trans htargets.symm))]
    show Except.ok (Scalar.div _ _) = _
    rw [ExactField.div_eq, Exact.total_eq_sum, sum_errors houtputs htargets]
  · -- Where nothing is supervised, there is nothing to divide either.
    have hnone : ∀ i ∈ range n, errorAt outputs targets i = 0 := by
      intro i hi
      refine if_neg fun hsupervised => hany (List.any_eq_true.mpr ⟨_, ?_, hsupervised⟩)
      rw [toList_eq_map_cell htargets]
      exact List.mem_map_of_mem (List.mem_range.mpr (Finset.mem_range.mp hi))
    rw [Bool.not_eq_true] at hany
    rw [hany, Bool.not_false, if_pos rfl, Finset.sum_eq_zero hnone, zero_div, Exact.zero_eq]

theorem errorAt_of_noTarget {outputs targets : Array α} {i : Nat}
    (h : Scalar.cell targets i = Scalar.noTarget) : errorAt outputs targets i = 0 :=
  if_neg fun hsupervised => (ExactField.supervised_iff _).mp hsupervised h

theorem sum_errorAt [DecidableEq α] (outputs targets : Array α) (n : Nat) :
    ∑ i ∈ range n, errorAt outputs targets i =
      ∑ i ∈ range n with Scalar.cell targets i ≠ Scalar.noTarget,
        (Scalar.cell outputs i - Scalar.cell targets i) ^ 2 := by
  rw [Finset.sum_filter]
  simp only [errorAt, ExactField.supervised_iff]

theorem divisor_eq {batch : Nat} (h : 1 ≤ batch) : (divisor batch : α) = batch := by
  rw [divisor, Nat.max_eq_left h, ExactField.ofNat_eq]

omit [ExactField α] in
/-- No error is left where the loss is zero. -/
theorem error_eq_zero [LinearOrder α] [IsStrictOrderedRing α] {outputs targets : Array α}
    {n : Nat} (h : ∑ i ∈ range n, errorAt outputs targets i = 0) {i : Nat} (hi : i < n)
    (hsupervised : Scalar.supervised (Scalar.cell targets i) = true) :
    Scalar.cell outputs i - Scalar.cell targets i = 0 := by
  have hnonneg : ∀ j ∈ range n, 0 ≤ errorAt outputs targets j := by
    intro j _
    unfold errorAt
    split
    · exact sq_nonneg _
    · exact le_refl 0
  have hzero := (Finset.sum_eq_zero_iff_of_nonneg hnonneg).mp h i (Finset.mem_range.mpr hi)
  rw [errorAt, if_pos hsupervised] at hzero
  exact pow_eq_zero_iff two_ne_zero |>.mp hzero

end Loss
end Plexus
