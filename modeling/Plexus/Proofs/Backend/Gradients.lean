import Plexus.Backend.Arena
import Plexus.Proofs.Numeric.Rows

/-!
# What a training tick sums up

The arena finds deltas group by group, and adds up gradients in place: one group after the other,
and in each group one row after the other.  All the same, each delta depends on its own slot and
row alone, and each gradient is a sum over the rows in their order.  Nothing is assumed of the
addition, so groups leave no trace in rounded sums either.
-/

namespace Plexus

/-!
## Sums in place
-/

namespace Scalar

variable {α : Type} [Scalar α]

@[simp] theorem size_addFrom (buffer : Array α) (i : Nat) (xs : List α) :
    (addFrom buffer i xs).size = buffer.size := by
  induction xs generalizing buffer i with
  | nil => rfl
  | cons x xs ih => rw [addFrom, ih, Array.size_modify]

/-- Cells before and after those that are added to keep what they have. -/
theorem getElem?_addFrom_of_outside {i k : Nat} {xs : List α} (buffer : Array α)
    (h : k < i ∨ i + xs.length ≤ k) : (addFrom buffer i xs)[k]? = buffer[k]? := by
  induction xs generalizing buffer i with
  | nil => rfl
  | cons x xs ih =>
      rw [List.length_cons] at h
      have hne : i ≠ k := by omega
      rw [addFrom, ih _ (by omega), Array.getElem?_modify, if_neg hne]

theorem getElem?_addFrom {i j : Nat} {xs : List α} {x : α} (buffer : Array α)
    (h : xs[j]? = some x) :
    (addFrom buffer i xs)[i + j]? = buffer[i + j]?.map fun y => add y x := by
  induction xs generalizing buffer i j with
  | nil => cases h
  | cons x' xs ih =>
      cases j with
      | zero =>
          cases h
          rw [addFrom, getElem?_addFrom_of_outside _ (Or.inl (by omega)), Array.getElem?_modify,
            if_pos (Nat.add_zero i).symm, Nat.add_zero]
      | succ j =>
          have hplace : i + (j + 1) = i + 1 + j := by omega
          have hne : i ≠ i + 1 + j := by omega
          rw [List.getElem?_cons_succ] at h
          rw [addFrom, hplace, ih _ h, Array.getElem?_modify, if_neg hne]

end Scalar

namespace Arena

variable {α : Type} [Scalar α]

/-- What a group adds to its sums, which start at a place: all rows, one after the other. -/
def accumulateRows (batch place : Nat) (row : Nat → List α) (sums : Array α) : Array α :=
  (List.range batch).foldl (fun sums b => Scalar.addFrom sums place (row b)) sums

theorem accumulateRows_succ (batch place : Nat) (row : Nat → List α) (sums : Array α) :
    accumulateRows (batch + 1) place row sums =
      Scalar.addFrom (accumulateRows batch place row sums) place (row batch) := by
  rw [accumulateRows, List.range_succ, List.foldl_append]
  rfl

@[simp] theorem size_accumulateRows (batch place : Nat) (row : Nat → List α) (sums : Array α) :
    (accumulateRows batch place row sums).size = sums.size := by
  induction batch with
  | zero => rfl
  | succ batch ih => rw [accumulateRows_succ, Scalar.size_addFrom, ih]

theorem getElem?_accumulateRows_of_outside {batch place n k : Nat} {row : Nat → List α}
    (hlength : ∀ b, (row b).length = n) (h : k < place ∨ place + n ≤ k) (sums : Array α) :
    (accumulateRows batch place row sums)[k]? = sums[k]? := by
  induction batch with
  | zero => rfl
  | succ batch ih =>
      rw [accumulateRows_succ,
        Scalar.getElem?_addFrom_of_outside _ ((hlength batch).symm ▸ h), ih]

/-- A sum that starts from zero comes to what the rows give it, in their order. -/
theorem getElem?_accumulateRows {batch place j : Nat} {row : Nat → List α} {f : Nat → α}
    {sums : Array α} (hrow : ∀ b, (row b)[j]? = some (f b))
    (hzero : sums[place + j]? = some Scalar.zero) :
    (accumulateRows batch place row sums)[place + j]? = some (Scalar.sumTo batch f) := by
  induction batch with
  | zero => exact hzero
  | succ batch ih =>
      rw [accumulateRows_succ, Scalar.getElem?_addFrom _ (hrow batch), ih]
      rfl

/-- The sums after some of the groups of a network. -/
def accumulateGroups (batch width : Nat) (row : Workgroup → Nat → List α) (gs : List Workgroup)
    (sums : Array α) : Array α :=
  gs.foldl (fun sums g => accumulateRows batch (g.start * width) (row g) sums) sums

theorem size_accumulateGroups (batch width : Nat) (row : Workgroup → Nat → List α)
    (gs : List Workgroup) (sums : Array α) :
    (accumulateGroups batch width row gs sums).size = sums.size := by
  induction gs generalizing sums with
  | nil => rfl
  | cons g gs ih =>
      exact (ih _).trans (size_accumulateRows _ _ _ _)

theorem size_accumulate (size batch width : Nat) (row : Workgroup → Nat → List α) :
    (accumulate size batch width row).size = size * width :=
  (size_accumulateGroups batch width row (Workgroup.groups size) _).trans (Scalar.size_zeros _)

/--
What one group does to the sum at place `s` of slot `t`: it adds up the rows if `t` is one of its
slots, and does nothing otherwise.
-/
theorem getElem?_accumulateRows_slots {batch width s t start n : Nat} {f : Nat → Nat → Nat → α}
    {sums : Array α} (hs : s < width)
    (hzero : start ≤ t → sums[t * width + s]? = some Scalar.zero) :
    (accumulateRows batch (start * width)
      (fun b => (List.range' start n).flatMap fun t => (List.range width).map (f b t))
      sums)[t * width + s]? =
      if start ≤ t ∧ t < start + n then some (Scalar.sumTo batch fun b => f b t s)
      else sums[t * width + s]? := by
  have hrows : ∀ b, ((List.range' start n).flatMap fun t => (List.range width).map (f b t)) =
      (List.range n).flatMap fun r => (List.range width).map (f b (start + r)) := by
    intro b
    rw [List.range'_eq_map_range, List.flatMap_map]
  simp only [hrows]
  split
  · next h =>
      obtain ⟨r, rfl⟩ : ∃ r, t = start + r := ⟨t - start, by omega⟩
      have hplace : (start + r) * width + s = start * width + (r * width + s) := by
        rw [Nat.add_mul, Nat.add_assoc]
      have hzero := hzero (Nat.le_add_right start r)
      rw [hplace] at hzero ⊢
      exact getElem?_accumulateRows
        (fun b => getElem?_flatMap_rows (fun r => f b (start + r)) (by omega) hs) hzero
  · next h =>
      apply getElem?_accumulateRows_of_outside fun b =>
        length_flatMap_rows (fun r => f b (start + r)) width n
      -- The slots before and after a group have all their sums before and after those of the group.
      rcases Nat.lt_or_ge t start with hbefore | hafter
      · left
        exact cell_lt hbefore hs
      · right
        have hle : (start + n) * width ≤ t * width := Nat.mul_le_mul_right width (by omega)
        rw [Nat.add_mul] at hle
        exact Nat.le_add_right_of_le hle

/-- After the first `k` groups the sums of their slots are complete, and the others untouched. -/
theorem getElem?_accumulate_of_first {size batch width s t : Nat} {f : Nat → Nat → Nat → α}
    {row : Workgroup → Nat → List α}
    (hrow : ∀ g b, row g b = g.slots.flatMap fun t => (List.range width).map (f b t))
    (ht : t < size) (hs : s < width) (k : Nat) :
    (accumulateGroups batch width row
      ((List.range k).map fun k => ⟨k * Workgroup.width,
        min (k * Workgroup.width + Workgroup.width) size⟩)
      (Scalar.zeros (size * width)))[t * width + s]? =
      some (if t < k * Workgroup.width then Scalar.sumTo batch fun b => f b t s
        else Scalar.zero) := by
  induction k with
  | zero =>
      rw [Nat.zero_mul, if_neg (Nat.not_lt_zero t)]
      show (Scalar.zeros (size * width))[t * width + s]? = _
      rw [Scalar.zeros, Array.getElem?_replicate, if_pos (cell_lt ht hs)]
  | succ k ih =>
      rw [List.range_succ, List.map_append, accumulateGroups, List.foldl_append]
      show (accumulateRows batch (k * Workgroup.width * width) _
        (accumulateGroups batch width row _ _))[t * width + s]? = _
      rw [funext (hrow _)]
      rw [Workgroup.slots, getElem?_accumulateRows_slots hs, ih]
      · rw [Nat.succ_mul]
        by_cases hdone : t < k * Workgroup.width
        · rw [if_neg (by omega), if_pos hdone, if_pos (by omega)]
        · by_cases hgroup : t < k * Workgroup.width + Workgroup.width
          · rw [if_pos (by simp only; omega), if_pos hgroup]
          · rw [if_neg (by simp only; omega), if_neg hdone, if_neg hgroup]
      · intro hle
        rw [ih, if_neg (Nat.not_lt.mpr hle)]

/-- Each sum goes over the rows in their order, whatever group its slot is in. -/
theorem getElem?_accumulate {size batch width s t : Nat} {f : Nat → Nat → Nat → α}
    {row : Workgroup → Nat → List α}
    (hrow : ∀ g b, row g b = g.slots.flatMap fun t => (List.range width).map (f b t))
    (ht : t < size) (hs : s < width) :
    (accumulate size batch width row)[t * width + s]? =
      some (Scalar.sumTo batch fun b => f b t s) := by
  have hcover : t < Workgroup.count size * Workgroup.width := by
    simp only [Workgroup.count, Workgroup.width]
    omega
  exact (getElem?_accumulate_of_first hrow ht hs (Workgroup.count size)).trans
    (congrArg some (if_pos hcover))

/-!
## Gradients
-/

/-- The gradient of the weight from `s` to `t`, summed over the rows in order. -/
def weightGradient (a : Arena α) (size batch : Nat) (deltas : Array α) (t s : Nat) : α :=
  Scalar.sumTo batch fun b =>
    Scalar.mul (Scalar.cell deltas (b * size + t)) (Scalar.cell a.input (b * size + s))

/-- The gradient of the bias of `t`, summed over the rows in order. -/
def biasGradient (size batch : Nat) (deltas : Array α) (t : Nat) : α :=
  Scalar.sumTo batch fun b => Scalar.cell deltas (b * size + t)

theorem size_weightGradients (a : Arena α) (size rows : Nat) (deltas : Array α) :
    (a.weightGradients size rows deltas).size = size * size :=
  size_accumulate size rows size _

theorem size_biasGradients (size rows : Nat) (deltas : Array α) :
    (biasGradients size rows deltas).size = size :=
  (size_accumulate size rows 1 _).trans (Nat.mul_one size)

theorem getElem?_weightGradients (a : Arena α) {size t s : Nat} (batch : Nat) (deltas : Array α)
    (ht : t < size) (hs : s < size) :
    (a.weightGradients size batch deltas)[t * size + s]? =
      some (a.weightGradient size batch deltas t s) := by
  have hrow : ∀ (g : Workgroup) (b : Nat),
      outer (cellsOf size deltas b g)
        ((List.range size).map fun s => Scalar.cell a.input (b * size + s)) =
      g.slots.flatMap fun t => (List.range size).map fun s =>
        Scalar.mul (Scalar.cell deltas (b * size + t)) (Scalar.cell a.input (b * size + s)) := by
    intro g b
    rw [outer, cellsOf, List.flatMap_map]
    simp only [List.map_map, Function.comp_def]
  exact getElem?_accumulate hrow ht hs

theorem getElem?_biasGradients {size t : Nat} (batch : Nat) (deltas : Array α) (ht : t < size) :
    (biasGradients size batch deltas)[t]? = some (biasGradient size batch deltas t) := by
  have hrow : ∀ (g : Workgroup) (b : Nat), cellsOf size deltas b g =
      g.slots.flatMap fun t => (List.range 1).map fun _ => Scalar.cell deltas (b * size + t) := by
    intro g b
    rw [cellsOf, List.map_eq_flatMap]
    rfl
  have hcell : (biasGradients size batch deltas)[t * 1 + 0]? = _ :=
    getElem?_accumulate hrow ht Nat.zero_lt_one
  rwa [Nat.mul_one, Nat.add_zero] at hcell

/-!
## Deltas
-/

/-- The delta of slot `t` of row `b`; zero where the target gives no supervision. -/
def delta (a : Arena α) (size : Nat) (targets : Array α) (b t : Nat) : α :=
  let y := Scalar.cell a.output (b * size + t)
  let target := Scalar.cell targets (b * size + t)
  if Scalar.supervised target then
    Scalar.mul (Scalar.sub y target) (Scalar.slope (a.codeAt t) y)
  else Scalar.zero

theorem deltaGroup_eq (a : Arena α) (size : Nat) (t : TrainingBuffers α) (b : Nat)
    (g : Workgroup) :
    a.deltaGroup size t b g =
      g.slots.map fun slot => Scalar.store t.precision (a.delta size t.targets b slot) := by
  simp only [deltaGroup, cellsOf, Activation.slopes, List.zipWith_map, List.zipWith_self]
  rfl

theorem toList_deltas (a : Arena α) (size batch : Nat) (t : TrainingBuffers α) :
    (a.deltas size batch t).toList =
      (List.range batch).flatMap fun b =>
        (List.range size).map fun slot =>
          Scalar.store t.precision (a.delta size t.targets b slot) := by
  have hrow : ∀ b, (Workgroup.groups size).flatMap (a.deltaGroup size t b) =
      (List.range size).map fun slot =>
        Scalar.store t.precision (a.delta size t.targets b slot) := by
    intro b
    rw [funext (deltaGroup_eq a size t b)]
    exact Workgroup.sweep_eq_map size _
  have hempty : size = 0 →
      ∀ b, (Workgroup.groups size).flatMap (a.deltaGroup size t b) = [] := by
    intro hsize b
    rw [hrow, hsize]
    rfl
  rw [deltas, Workgroup.overRows_eq_flatMap batch hempty, funext hrow]

theorem size_deltas (a : Arena α) (size rows : Nat) (t : TrainingBuffers α) :
    (a.deltas size rows t).size = size * rows := by
  rw [← Array.length_toList, toList_deltas, length_flatMap_rows, Nat.mul_comm]

/-- Each cell of the deltas is the delta of its slot in its row, as it is stored. -/
theorem getElem?_deltas (a : Arena α) {size batch b slot : Nat} (t : TrainingBuffers α)
    (hb : b < batch) (hslot : slot < size) :
    (a.deltas size batch t)[b * size + slot]? =
      some (Scalar.store t.precision (a.delta size t.targets b slot)) := by
  rw [← Array.getElem?_toList, toList_deltas]
  exact getElem?_flatMap_rows _ hb hslot

end Arena
end Plexus
