import Plexus.Training.Trainer
import Plexus.Proofs.Attempt
import Plexus.Proofs.Numeric.Rows

/-!
# Packing samples into a batch

Samples that are as wide as the network become the leading rows of a batch, unchanged and in
order; every other row is padding.
-/

namespace Plexus
namespace Trainer

open Attempt

variable {α : Type}

/-- Cells that consist of some rows, one after the other, and of padding in all rows after them. -/
structure Padded (size batch : Nat) (padding : α) (rows : List (Array α)) (cells : Array α) :
    Prop where
  width : ∀ row ∈ rows, row.size = size
  length : cells.size = batch * size
  taken : ∀ (r : Nat) (row : Array α), rows[r]? = some row → ∀ t < size,
    cells[r * size + t]? = row[t]?
  padded : ∀ r, rows.length ≤ r → r < batch → ∀ t < size,
    cells[r * size + t]? = some padding

theorem length_of_mem_toList {rows : List (Array α)} {size : Nat}
    (h : ∀ row ∈ rows, row.size = size) :
    ∀ cells ∈ rows.map Array.toList, cells.length = size := by
  intro cells hcells
  rcases List.mem_map.mp hcells with ⟨row, hrow, rfl⟩
  exact h row hrow

theorem length_flatMap_toList {rows : List (Array α)} {size : Nat}
    (h : ∀ row ∈ rows, row.size = size) :
    (rows.flatMap Array.toList).length = rows.length * size := by
  rw [List.flatMap_def, length_flatten_rows (length_of_mem_toList h), List.length_map]

theorem getElem?_flatMap_toList {rows : List (Array α)} {row : Array α} {size r t : Nat}
    (h : ∀ row ∈ rows, row.size = size) (hrow : rows[r]? = some row) (ht : t < size) :
    (rows.flatMap Array.toList)[r * size + t]? = row[t]? := by
  have hcells : (rows.map Array.toList)[r]? = some row.toList := by
    rw [List.getElem?_map, hrow, Option.map_some]
  rw [List.flatMap_def, getElem?_flatten_rows (length_of_mem_toList h) hcells ht,
    Array.getElem?_toList]

theorem padded_joinRows {rows : List (Array α)} {size batch : Nat}
    (h : ∀ row ∈ rows, row.size = size) (hcount : rows.length ≤ batch) (padding : α) :
    Padded size batch padding rows (joinRows (batch * size) padding rows) := by
  have hlength := length_flatMap_toList h
  have hroom : rows.length * size ≤ batch * size := Nat.mul_le_mul_right size hcount
  have hcells : (joinRows (batch * size) padding rows).toList =
      rows.flatMap Array.toList ++
        List.replicate (batch * size - rows.length * size) padding := by
    rw [joinRows, Array.toList_append, Array.toList_replicate, List.size_toArray, hlength]
  constructor
  · exact h
  · rw [← Array.length_toList, hcells, List.length_append, hlength, List.length_replicate]
    exact Nat.add_sub_cancel' hroom
  · intro r row hrow t ht
    have hbefore : r * size + t < rows.length * size :=
      cell_lt (List.getElem?_eq_some_iff.mp hrow).1 ht
    rw [← Array.getElem?_toList, hcells, List.getElem?_append_left (hlength.symm ▸ hbefore)]
    exact getElem?_flatMap_toList h hrow ht
  · intro r hr hbatch t ht
    have hafter : rows.length * size ≤ r * size + t :=
      Nat.le_add_right_of_le (Nat.mul_le_mul_right size hr)
    have hlast : r * size + t < batch * size := cell_lt hbatch ht
    rw [← Array.getElem?_toList, hcells, List.getElem?_append_right (hlength.symm ▸ hafter),
      hlength, List.getElem?_replicate, if_pos (Nat.sub_lt_sub_right hafter hlast)]

theorem padded_joinRows_map {samples : List (Sample α)} {part : Sample α → Array α}
    {size batch : Nat} (h : ∀ s ∈ samples, (part s).size = size)
    (hcount : samples.length ≤ batch) (padding : α) :
    Padded size batch padding (samples.map part)
      (joinRows (batch * size) padding (samples.map part)) := by
  apply padded_joinRows
  · intro row hrow
    rcases List.mem_map.mp hrow with ⟨s, hs, rfl⟩
    exact h s hs
  · rw [List.length_map]
    exact hcount

variable [Scalar α]

/-- Samples as wide as the network are packed as they are. -/
theorem pack_eq_ok {size : Nat} {samples : List (Sample α)} (batch : Nat)
    (h : ∀ s ∈ samples, s.inputs.size = size ∧ s.targets.size = size) :
    pack size batch samples = .ok {
      inputs := joinRows (batch * size) Scalar.zero (samples.map Sample.inputs)
      targets := joinRows (batch * size) Scalar.noTarget (samples.map Sample.targets) } := by
  have hinputs : (samples.mapM fun s => fitRow size s.inputs) =
      .ok (samples.map Sample.inputs) :=
    mapM_eq_ok fun s hs => if_pos (h s hs).1
  have htargets : (samples.mapM fun s => fitRow size s.targets) =
      .ok (samples.map Sample.targets) :=
    mapM_eq_ok fun s hs => if_pos (h s hs).2
  rw [pack, hinputs, htargets]
  rfl

end Trainer
end Plexus
