import Mathlib.Data.Prod.Lex
import Mathlib.Order.Compare
import Plexus.Compiled.Stats
import Plexus.Proofs.Numeric.Conversion

/-!
# The order of single-precision numbers

Two numbers are compared by their class, then by their exponents and then by their mantissas, so
what is a number has a place in a linear order.  The least and the greatest of some numbers, which
are found by going through them once, are therefore among them and bound the others.
-/

namespace Plexus

/-!
## Going through a list once
-/

namespace Stats

variable {α β : Type} [LinearOrder β] {pick : α → α → α}

/-- Picks the one of two items that has a key which does not come after the other's. -/
def PicksFirst (pick : α → α → α) (P : α → Prop) (key : α → β) : Prop :=
  ∀ x y, P x → P y →
    (pick x y = x ∨ pick x y = y) ∧ key (pick x y) ≤ key x ∧ key (pick x y) ≤ key y

variable {P : α → Prop} {key : α → β}

/-- What is picked again and again is one of the items, and no other one comes before it. -/
theorem foldl_pick_spec (hpick : PicksFirst pick P key)
    {xs : List α} {x : α} (hx : P x) (hxs : ∀ y ∈ xs, P y) :
    xs.foldl pick x ∈ x :: xs ∧ ∀ y ∈ x :: xs, key (xs.foldl pick x) ≤ key y := by
  induction xs generalizing x with
  | nil =>
      constructor
      · exact List.mem_cons_self
      · intro y hy
        rw [List.mem_singleton.mp hy]
        exact le_refl _
  | cons y ys ih =>
      rcases List.forall_mem_cons.mp hxs with ⟨hy, hys⟩
      rcases hpick x y hx hy with ⟨hone, hbefore, hbefore'⟩
      have hpicked : P (pick x y) := by
        rcases hone with heq | heq
        · rwa [heq]
        · rwa [heq]
      rcases ih hpicked hys with ⟨hmem, hleast⟩
      rw [List.foldl_cons]
      rcases List.forall_mem_cons.mp hleast with ⟨hfirst, hrest⟩
      constructor
      · rcases List.mem_cons.mp hmem with heq | hmem
        · rcases hone with hone | hone
          · rw [heq, hone]
            exact List.mem_cons_self
          · rw [heq, hone]
            exact List.mem_cons_of_mem x List.mem_cons_self
        · exact List.mem_cons_of_mem x (List.mem_cons_of_mem y hmem)
      · rw [List.forall_mem_cons, List.forall_mem_cons]
        exact ⟨hfirst.trans hbefore, hfirst.trans hbefore', hrest⟩

theorem extreme_spec [Scalar α] (hpick : PicksFirst pick P key)
    {xs : List α} (hne : xs ≠ []) (hxs : ∀ x ∈ xs, P x) :
    extreme pick xs ∈ xs ∧ ∀ x ∈ xs, key (extreme pick xs) ≤ key x := by
  cases xs with
  | nil => exact absurd rfl hne
  | cons x rest =>
      rcases List.forall_mem_cons.mp hxs with ⟨hx, hrest⟩
      exact foldl_pick_spec hpick hx hrest

end Stats

namespace Single

open Float.Model (UnpackedFloat)

/-!
## Places in the order
-/

/-- Where a number stands: its class, and for finite numbers its exponent and its mantissa. -/
def place : UnpackedFloat → Int ×ₗ Int ×ₗ Int
  | .infinity .negative => toLex (-2, toLex (0, 0))
  | .finite .negative m e _ => toLex (-1, toLex (-e, -m))
  | .zero _ => toLex (0, toLex (0, 0))
  | .finite .positive m e _ => toLex (1, toLex (e, m))
  | .infinity .positive => toLex (2, toLex (0, 0))
  | .notANumber => toLex (0, toLex (0, 0))

theorem compare_toLex {β γ : Type} [LinearOrder β] [LinearOrder γ] (a b : β) (c d : γ) :
    compare (toLex (a, c)) (toLex (b, d)) = (compare a b).then (compare c d) := by
  rw [Prod.Lex.compare_def]
  rfl

theorem compare_neg (a b : Int) : compare (-a) (-b) = (compare a b).swap := by
  rw [Int.compare_swap]
  simp only [compare, compareOfLessAndEq, Int.neg_lt_neg_iff, Int.neg_inj, eq_comm]

theorem compare_natCast (a b : Nat) : compare (a : Int) (b : Int) = compare a b := by
  simp only [compare, compareOfLessAndEq, Int.ofNat_lt, Int.natCast_inj]

/-- Comparing two numbers is comparing their places. -/
theorem compare_eq_place {u v : UnpackedFloat} (hu : u ≠ .notANumber) (hv : v ≠ .notANumber) :
    u.compare v = some (compare (place u) (place v)) := by
  cases u with
  | notANumber => exact absurd rfl hu
  | infinity s =>
      cases v with
      | notANumber => exact absurd rfl hv
      | infinity t => cases s <;> cases t <;> rfl
      | zero t => cases s <;> rfl
      | finite t m e hm => cases s <;> cases t <;> rfl
  | zero s =>
      cases v with
      | notANumber => exact absurd rfl hv
      | infinity t => cases t <;> rfl
      | zero t => rfl
      | finite t m e hm => cases t <;> rfl
  | finite s m e hm =>
      cases v with
      | notANumber => exact absurd rfl hv
      | infinity t => cases s <;> cases t <;> rfl
      | zero t => cases s <;> rfl
      | finite t n f hn =>
          cases s with
          | negative =>
              cases t with
              | negative =>
                  rw [place, place, compare_toLex, compare_toLex, compare_neg e f,
                    compare_neg m n, compare_natCast, ← Ordering.swap_then]
                  rfl
              | positive => rfl
          | positive =>
              cases t with
              | negative => rfl
              | positive =>
                  rw [place, place, compare_toLex, compare_toLex, compare_natCast]
                  rfl

theorem unpack_ne_notANumber {x : Float32} (h : Scalar.isNaN x = false) :
    x.toModel.unpack ≠ .notANumber := by
  intro hnan
  have hsame : Scalar.same x x = x.toModel.unpack.beq x.toModel.unpack := rfl
  rw [Scalar.isNaN, hsame, hnan] at h
  cases h

/-- The lesser of two numbers is the one whose place comes first. -/
theorem lt_iff_place {x y : Float32} (hx : Scalar.isNaN x = false) (hy : Scalar.isNaN y = false) :
    x < y ↔ place x.toModel.unpack < place y.toModel.unpack := by
  have hmodel : x < y ↔ x.toModel.unpack.lt y.toModel.unpack = true := decide_eq_true_iff
  rw [hmodel, UnpackedFloat.lt,
    compare_eq_place (unpack_ne_notANumber hx) (unpack_ne_notANumber hy), beq_iff_eq,
    Option.some.injEq, compare_lt_iff_lt]

theorem le_iff_place {x y : Float32} (hx : Scalar.isNaN x = false) (hy : Scalar.isNaN y = false) :
    x ≤ y ↔ place x.toModel.unpack ≤ place y.toModel.unpack := by
  have hmodel : x ≤ y ↔ x.toModel.unpack.le y.toModel.unpack = true := decide_eq_true_iff
  rw [hmodel, UnpackedFloat.le,
    compare_eq_place (unpack_ne_notANumber hx) (unpack_ne_notANumber hy), Option.any_some,
    ← compare_le_iff_le, ← Ordering.ne_gt_iff_isLE]

/-!
## Extremes
-/

open Stats (extreme lesser greater PicksFirst extreme_spec)

/-- Of two numbers, the lesser is picked by its place. -/
theorem picksFirst_lesser :
    PicksFirst lesser (fun x => Scalar.isNaN x = false)
      fun x : Float32 => place x.toModel.unpack := by
  intro x y hx hy
  have hplace := lt_iff_place hy hx
  have hpick : lesser x y = if y < x then y else x := by
    simp only [lesser, hx, hy, Bool.false_eq_true, if_false]
    exact if_congr decide_eq_true_iff rfl rfl
  rw [hpick]
  by_cases hlt : y < x
  · rw [if_pos hlt]
    exact ⟨Or.inr rfl, (hplace.mp hlt).le, le_refl _⟩
  · rw [if_neg hlt]
    exact ⟨Or.inl rfl, le_refl _, not_lt.mp fun h => hlt (hplace.mpr h)⟩

/-- Of two numbers, the greater is picked by its place from the other end. -/
theorem picksFirst_greater :
    PicksFirst greater (fun x => Scalar.isNaN x = false)
      fun x : Float32 => OrderDual.toDual (place x.toModel.unpack) := by
  intro x y hx hy
  have hplace := lt_iff_place hx hy
  have hpick : greater x y = if x < y then y else x := by
    simp only [greater, hx, hy, Bool.false_eq_true, if_false]
    exact if_congr decide_eq_true_iff rfl rfl
  rw [hpick]
  by_cases hlt : x < y
  · rw [if_pos hlt]
    exact ⟨Or.inr rfl, (hplace.mp hlt).le, le_refl _⟩
  · rw [if_neg hlt]
    exact ⟨Or.inl rfl, le_refl _, OrderDual.toDual_le_toDual.mpr
      (not_lt.mp fun h => hlt (hplace.mpr h))⟩

variable {xs : List Float32}

/-- The least of some numbers is one of them and bounds the others. -/
theorem extreme_lesser (hne : xs ≠ []) (hxs : ∀ x ∈ xs, Scalar.isNaN x = false) :
    extreme lesser xs ∈ xs ∧ ∀ x ∈ xs, extreme lesser xs ≤ x := by
  rcases extreme_spec picksFirst_lesser hne hxs with ⟨hmem, hleast⟩
  exact ⟨hmem, fun x hx => (le_iff_place (hxs _ hmem) (hxs x hx)).mpr (hleast x hx)⟩

/-- The greatest of some numbers is one of them and bounds the others. -/
theorem extreme_greater (hne : xs ≠ []) (hxs : ∀ x ∈ xs, Scalar.isNaN x = false) :
    extreme greater xs ∈ xs ∧ ∀ x ∈ xs, x ≤ extreme greater xs := by
  rcases extreme_spec picksFirst_greater hne hxs with ⟨hmem, hgreatest⟩
  exact ⟨hmem, fun x hx => (le_iff_place (hxs x hx) (hxs _ hmem)).mpr (hgreatest x hx)⟩

end Single
end Plexus
