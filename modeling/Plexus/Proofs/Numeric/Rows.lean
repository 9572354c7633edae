import Plexus.Numeric.Scalar

/-!
# Cells in rows

Buffers are written one row after the other: in rows of the same length, the cell at place `t`
of row `b` stands at `b * size + t`.
-/

namespace Plexus

theorem Scalar.getElem?_eq_cell {α : Type} [Scalar α] {buffer : Array α} {i : Nat}
    (h : i < buffer.size) : buffer[i]? = some (cell buffer i) := by
  rw [cell, Array.getElem?_eq_getElem h]
  rfl

theorem cell_lt {batch size b t : Nat} (hb : b < batch) (ht : t < size) :
    b * size + t < batch * size := by
  have hrow : (b + 1) * size ≤ batch * size := Nat.mul_le_mul_right size hb
  rw [Nat.succ_mul] at hrow
  exact Nat.lt_of_lt_of_le (Nat.add_lt_add_left ht _) hrow

theorem exists_cell {batch size i : Nat} (h : i < batch * size) :
    ∃ b < batch, ∃ t < size, i = b * size + t := by
  have hsize : 0 < size := Nat.pos_of_mul_pos_left (Nat.zero_lt_of_lt h)
  refine ⟨i / size, (Nat.div_lt_iff_lt_mul hsize).mpr h, i % size, Nat.mod_lt i hsize, ?_⟩
  exact (Nat.div_add_mod' i size).symm

/-- Buffers are equal if their cells are, as far as any of them has cells. -/
theorem eq_of_cells_below {β : Type} {xs ys : Array β} {n : Nat} (hxs : xs.size ≤ n)
    (hys : ys.size ≤ n) (h : ∀ i < n, xs[i]? = ys[i]?) : xs = ys := by
  apply Array.ext_getElem?
  intro i
  by_cases hi : i < n
  · exact h i hi
  · rw [Array.getElem?_eq_none (by omega), Array.getElem?_eq_none (by omega)]

/-- Cells in rows are determined row by row. -/
theorem eq_of_rows {β : Type} {xs ys : Array β} {batch size : Nat} (hxs : xs.size ≤ batch * size)
    (hys : ys.size ≤ batch * size)
    (h : ∀ b < batch, ∀ t < size, xs[b * size + t]? = ys[b * size + t]?) : xs = ys := by
  refine eq_of_cells_below hxs hys fun i hi => ?_
  rcases exists_cell hi with ⟨b, hb, t, ht, rfl⟩
  exact h b hb t ht

theorem length_flatten_rows {β : Type} {rows : List (List β)} {size : Nat}
    (h : ∀ row ∈ rows, row.length = size) :
    rows.flatten.length = rows.length * size := by
  induction rows with
  | nil => exact (Nat.zero_mul size).symm
  | cons row rest ih =>
      have hrest := ih fun d hd => h d (List.mem_cons_of_mem row hd)
      rw [List.flatten_cons, List.length_append, hrest, h row List.mem_cons_self,
        List.length_cons, Nat.succ_mul, Nat.add_comm]

/-- The cells of rows of the same length, which are written one row after the other. -/
theorem getElem?_flatten_rows {β : Type} {rows : List (List β)} {row : List β}
    {size b t : Nat} (h : ∀ row ∈ rows, row.length = size) (hrow : rows[b]? = some row)
    (ht : t < size) :
    rows.flatten[b * size + t]? = row[t]? := by
  induction rows generalizing b with
  | nil => cases hrow
  | cons first rest ih =>
      have hfirst := h first List.mem_cons_self
      rw [List.flatten_cons]
      cases b with
      | zero =>
          cases hrow
          rw [Nat.zero_mul, Nat.zero_add]
          exact List.getElem?_append_left (hfirst.symm ▸ ht)
      | succ b =>
          have hcell : (b + 1) * size + t = first.length + (b * size + t) := by
            rw [hfirst, Nat.succ_mul]
            omega
          rw [hcell, List.getElem?_append_right (Nat.le_add_right _ _), Nat.add_sub_cancel_left]
          rw [List.getElem?_cons_succ] at hrow
          exact ih (fun d hd => h d (List.mem_cons_of_mem first hd)) hrow

theorem length_flatMap_rows {β : Type} (f : Nat → Nat → β) (size batch : Nat) :
    ((List.range batch).flatMap fun r => (List.range size).map (f r)).length = batch * size := by
  simp [List.length_flatMap, List.map_const']

theorem getElem?_flatMap_rows {β : Type} (f : Nat → Nat → β) {size batch b t : Nat}
    (hb : b < batch) (ht : t < size) :
    ((List.range batch).flatMap fun r => (List.range size).map (f r))[b * size + t]? =
      some (f b t) := by
  have hrow : ((List.range batch).map fun r => (List.range size).map (f r))[b]? =
      some ((List.range size).map (f b)) := by
    rw [List.getElem?_map, List.getElem?_range hb, Option.map_some]
  rw [List.flatMap_def, getElem?_flatten_rows (by simp) hrow ht, List.getElem?_map,
    List.getElem?_range ht, Option.map_some]

end Plexus
