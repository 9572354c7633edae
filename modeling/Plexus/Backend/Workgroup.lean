import Plexus.Numeric.Scalar

/-!
# Workgroups

The dense backend works on groups of neighbouring slots, a fixed number at a time; the
last group may be smaller.  Groups cover every slot once and in order, so what is done
group by group is done slot by slot.
-/

namespace Plexus

/-- The slots from `start` up to, but without, `stop`. -/
structure Workgroup where
  start : Nat
  stop : Nat
deriving DecidableEq, Inhabited

namespace Workgroup

/-- The number of slots of a full group. -/
def width : Nat := 64

/-- The slots of a group. -/
def slots (g : Workgroup) : List Nat := List.range' g.start (g.stop - g.start)

/-- The number of groups of a network. -/
def count (size : Nat) : Nat := (size + width - 1) / width

/-- The groups of a network. -/
def groups (size : Nat) : List Workgroup :=
  (List.range (count size)).map fun k => ⟨k * width, min (k * width + width) size⟩

/-- What `f` gives for each slot, computed group by group. -/
@[specialize] def sweep {β : Type} (size : Nat) (f : Nat → β) : List β :=
  (groups size).flatMap fun g => g.slots.map f

/-- What `f` gives for each row of a batch; a network without slots has nothing in its rows. -/
@[specialize] def overRows {β : Type} (size batch : Nat) (f : Nat → List β) : List β :=
  if size = 0 then [] else (List.range batch).flatMap f

/-- Going over the rows of a batch leaves none out, not even in a network without slots. -/
theorem overRows_eq_flatMap {β : Type} {size : Nat} (batch : Nat) {f : Nat → List β}
    (h : size = 0 → ∀ b, f b = []) : overRows size batch f = (List.range batch).flatMap f := by
  unfold overRows
  split
  · next hsize =>
      rw [List.flatMap_eq_nil_iff.2 fun b _ => h hsize b]
  · rfl

/-- The first `k` groups cover the slots up to the end of the last of them. -/
theorem slots_of_first (size k : Nat) :
    (List.range k).flatMap (fun j =>
      (⟨j * width, min (j * width + width) size⟩ : Workgroup).slots) =
      List.range (min (k * width) size) := by
  induction k with
  | zero => simp
  | succ k ih =>
      rw [List.range_succ, List.flatMap_append, ih, Nat.succ_mul]
      simp only [List.flatMap_cons, List.flatMap_nil, List.append_nil, slots, List.range_eq_range']
      by_cases h : k * width ≤ size
      · have hend : min (k * width + width) size =
            k * width + (min (k * width + width) size - k * width) := by omega
        rw [Nat.min_eq_left h]
        conv => rhs; rw [hend]
        rw [← List.range'_append_1, Nat.zero_add]
      · have hempty : min (k * width + width) size - k * width = 0 := by omega
        have hbefore : min (k * width) size = size := by omega
        have hafter : min (k * width + width) size = size := by omega
        rw [hempty, hbefore, hafter, List.range'_zero, List.append_nil]

/-- The groups of a network cover every slot once and in order. -/
theorem flatMap_slots_groups (size : Nat) :
    (groups size).flatMap slots = List.range size := by
  have hcover : min (count size * width) size = size := by
    simp only [count, width]
    omega
  rw [groups, List.flatMap_map, slots_of_first, hcover]

/-- Sweeping over the groups is the same as going over the slots. -/
theorem sweep_eq_map {β : Type} (size : Nat) (f : Nat → β) :
    sweep size f = (List.range size).map f := by
  rw [sweep, ← List.map_flatMap, flatMap_slots_groups]

end Workgroup

namespace Activation

variable {α : Type} [Scalar α]

/-- Applies one activation function to the slots that have it, and leaves the others alone. -/
@[specialize]
def applyMasked (a : Activation) (codes : List Activation) (z out : List α) : List α :=
  (codes.zip (z.zip out)).map fun (c, x, y) => if c = a then Scalar.activate a x else y

/--
Applies the activation function of each slot.  Slots that all have the same one are
treated at once; else one function after the other is applied to the slots that have it.
-/
@[specialize] def apply (codes : List Activation) (z : List α) : List α :=
  match codes with
  | [] => z
  | a :: rest =>
      if rest.all (· == a) then z.map (Scalar.activate a)
      else all.foldl (fun out b => applyMasked b codes z out) z

/-- The derivatives at each slot, in terms of the outputs. -/
@[specialize] def slopes (codes : List Activation) (y : List α) : List α :=
  codes.zipWith Scalar.slope y

end Activation
end Plexus
