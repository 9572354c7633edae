import Plexus.Backend.Arena
import Plexus.Proofs.Numeric.Rows

/-!
# What a forward tick computes

The arena works on groups of slots and applies one activation function after the other.  All
the same, each cell of the output is the activation function of its slot applied to what the
slot sums up in its row.
-/

namespace Plexus

/-!
## Activation functions
-/

namespace Activation

variable {α β : Type} [Scalar α]

theorem applyMasked_map (a : Activation) (ts : List β) (c : β → Activation) (z y : β → α) :
    applyMasked a (ts.map c) (ts.map z) (ts.map y) =
      ts.map fun t => if c t = a then Scalar.activate a (z t) else y t := by
  unfold applyMasked
  rw [List.zip_map', List.zip_map', List.map_map]
  rfl

/-- After some activation functions, exactly the slots that have one of them are done. -/
theorem foldl_applyMasked_map (as : List Activation) (ts : List β) (c : β → Activation)
    (z y : β → α) :
    as.foldl (fun out a => applyMasked a (ts.map c) (ts.map z) out) (ts.map y) =
      ts.map fun t => if c t ∈ as then Scalar.activate (c t) (z t) else y t := by
  induction as generalizing y with
  | nil => simp
  | cons a as ih =>
      rw [List.foldl_cons, applyMasked_map, ih]
      apply List.map_congr_left
      intro t _
      by_cases hrest : c t ∈ as
      · rw [if_pos hrest, if_pos (List.mem_cons_of_mem a hrest)]
      · rw [if_neg hrest]
        by_cases ha : c t = a
        · rw [if_pos ha, if_pos (by simp [ha]), ha]
        · rw [if_neg ha, if_neg (by simp [ha, hrest])]

/-- Each slot gets its own activation function. -/
theorem apply_map (ts : List β) (c : β → Activation) (z : β → α) :
    apply (ts.map c) (ts.map z) = ts.map fun t => Scalar.activate (c t) (z t) := by
  cases ts with
  | nil => rfl
  | cons t rest =>
      rw [List.map_cons, apply]
      by_cases hsame : ((rest.map c).all fun b => b == c t) = true
      · -- All slots are alike, and are treated at once.
        rw [if_pos hsame, List.map_map]
        apply List.map_congr_left
        intro u hu
        have hcode : c u = c t := by
          rcases List.mem_cons.mp hu with rfl | hu
          · rfl
          · exact beq_iff_eq.mp (List.all_eq_true.mp hsame _ (List.mem_map_of_mem hu))
        rw [Function.comp_apply, hcode]
      · rw [if_neg hsame, ← List.map_cons]
        rw [foldl_applyMasked_map all (t :: rest) c z z]
        apply List.map_congr_left
        intro u _
        rw [if_pos (mem_all (c u))]

end Activation

/-!
## Outputs
-/

namespace Arena

variable {α : Type} [Scalar α]

/-- The output of a slot in a row. -/
def response (a : Arena α) (size : Nat) (input : Array α) (b t : Nat) : α :=
  Scalar.activate (a.codeAt t) (a.preactivation size input b t)

theorem forwardRow_eq (a : Arena α) (size : Nat) (input : Array α) (b : Nat) :
    a.forwardRow size input b = (List.range size).map (a.response size input b) := by
  have hgroup : a.forwardGroup size input b = fun g => g.slots.map (a.response size input b) := by
    funext g
    exact Activation.apply_map g.slots a.codeAt (a.preactivation size input b)
  rw [forwardRow, hgroup, ← List.map_flatMap, Workgroup.flatMap_slots_groups]

theorem output_forward (a : Arena α) (size batch : Nat) (input : Array α) :
    (a.forward size batch input).output.toList =
      (List.range batch).flatMap fun b => (List.range size).map (a.response size input b) := by
  have hempty : size = 0 → ∀ b, a.forwardRow size input b = [] := by
    intro hsize b
    rw [forwardRow_eq, hsize]
    rfl
  show (Workgroup.overRows size batch (a.forwardRow size input)).toArray.toList = _
  rw [Workgroup.overRows_eq_flatMap batch hempty, funext (forwardRow_eq a size input)]

theorem size_output_forward (a : Arena α) (size batch : Nat) (input : Array α) :
    (a.forward size batch input).output.size = size * batch := by
  rw [← Array.length_toList, output_forward, length_flatMap_rows, Nat.mul_comm]

/-- Each cell of the output is the response of its slot in its row. -/
theorem getElem?_output_forward (a : Arena α) {size batch b t : Nat} (input : Array α)
    (hb : b < batch) (ht : t < size) :
    (a.forward size batch input).output[b * size + t]? = some (a.response size input b t) := by
  rw [← Array.getElem?_toList, output_forward]
  exact getElem?_flatMap_rows _ hb ht

end Arena
end Plexus
