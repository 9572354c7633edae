import Plexus.Backend.OpGraph
import Plexus.Proofs.Backend.Forward

/-!
# What an operation graph computes

A graph multiplies by the transposed weights, row by row, and has one operation for all
activation functions.  It computes what an arena with the same parameters computes, and its
weights can be read back.  Nothing is assumed of the scalars, except that the linear
activation function is the identity, as a graph has no operation for it.
-/

namespace Plexus
namespace OpGraph

variable {α : Type} [Scalar α]

/-!
## Transposed matrices
-/

theorem size_transpose (size : Nat) (m : Array α) : (transpose size m).size = size * size := by
  simp [transpose]

theorem cell_transpose {size s t : Nat} (m : Array α) (hs : s < size) (ht : t < size) :
    Scalar.cell (transpose size m) (s * size + t) = Scalar.cell m (t * size + s) := by
  have hcolumn : (s * size + t) % size = t := by
    rw [Nat.mul_comm, Nat.mul_add_mod, Nat.mod_eq_of_lt ht]
  have hrow : (s * size + t) / size = s := by
    rw [Nat.mul_comm, Nat.mul_add_div (by omega), Nat.div_eq_of_lt ht, Nat.add_zero]
  have hget : (transpose size m)[s * size + t]? = some (Scalar.cell m (t * size + s)) := by
    rw [transpose, List.getElem?_toArray, List.getElem?_map, List.getElem?_range (cell_lt hs ht),
      Option.map_some, hcolumn, hrow]
  rw [Scalar.cell, hget, Option.getD_some]

/-- A square matrix is determined by its cells. -/
theorem eq_of_cells {size : Nat} {m m' : Array α} (hm : m.size = size * size)
    (hm' : m'.size = size * size)
    (h : ∀ s t, s < size → t < size →
      Scalar.cell m (s * size + t) = Scalar.cell m' (s * size + t)) :
    m = m' := by
  refine eq_of_rows (Nat.le_of_eq hm) (Nat.le_of_eq hm') fun s hs t ht => ?_
  have hplace := cell_lt hs ht
  rw [Scalar.getElem?_eq_cell (hm.symm ▸ hplace), Scalar.getElem?_eq_cell (hm'.symm ▸ hplace),
    h s t hs ht]

theorem transpose_transpose {size : Nat} {m : Array α} (hm : m.size = size * size) :
    transpose size (transpose size m) = m := by
  apply eq_of_cells (size_transpose size _) hm
  intro s t hs ht
  rw [cell_transpose _ hs ht, cell_transpose _ ht hs]

/-- The weights of a graph are those it was built of. -/
theorem weights_build {size : Nat} {weights : Array α} (biases : Array α)
    (codes : List Activation) (h : weights.size = size * size) :
    (build size weights biases codes).weights = weights :=
  transpose_transpose h

/-!
## Operations on a row
-/

theorem cell_row {size s : Nat} (input : Array α) (b : Nat) (hs : s < size) :
    Scalar.cell (row size input b) s = Scalar.cell input (b * size + s) := by
  have hget : (row size input b)[s]? = some (Scalar.cell input (b * size + s)) := by
    rw [row, List.getElem?_toArray, List.getElem?_map, List.getElem?_range hs, Option.map_some]
  rw [Scalar.cell, hget, Option.getD_some]

/-- Each slot sums up its row of the weights, although they are kept transposed. -/
theorem apply_multiply (size : Nat) (weights biases : Array α) (codes : List Activation)
    (input : Array α) (b : Nat) :
    (build size weights biases codes).apply (row size input b) .multiply =
      ((List.range size).map fun t =>
        Scalar.dot size input (b * size) weights (t * size)).toArray := by
  show ((List.range size).map fun t => Scalar.sumTo size fun s => Scalar.mul
    (Scalar.cell (row size input b) s)
    (Scalar.cell (transpose size weights) (s * size + t))).toArray = _
  apply congrArg List.toArray
  apply List.map_congr_left
  intro t ht
  apply Scalar.sumTo_congr
  intro s hs
  rw [cell_row input b hs, cell_transpose weights hs (List.mem_range.mp ht)]

theorem apply_addBias {size : Nat} {g : OpGraph α} (f : Nat → α) (hbias : g.bias.size = size) :
    g.apply ((List.range size).map f).toArray .addBias =
      ((List.range size).map fun t => Scalar.add (f t) (Scalar.cell g.bias t)).toArray := by
  apply Array.ext
  · simp [apply, hbias]
  · intro t ht ht'
    have hlt : t < g.bias.size := by simpa [hbias] using ht'
    simp [apply, Scalar.cell, Array.getElem?_eq_getElem hlt]

/-- The one operation for all activation functions does what they do slot by slot. -/
theorem foldl_activationOps {g : OpGraph α}
    (hlinear : ∀ x : α, Scalar.activate .linear x = x) (row : Array α) :
    (activationOps g.codes).foldl g.apply row = (Activation.apply g.codes row.toList).toArray := by
  cases hcodes : g.codes with
  | nil => rfl
  | cons a rest =>
      rw [activationOps, Activation.apply]
      by_cases huniform : rest.all (· == a) = true
      · rw [if_pos huniform, if_pos huniform]
        by_cases ha : a = .linear
        · rw [if_pos ha, ha, funext hlinear, List.map_id']
          rfl
        · rw [if_neg ha, ← Array.toList_map]
          rfl
      · rw [if_neg huniform, if_neg huniform]
        show (Activation.apply g.codes row.toList).toArray = _
        rw [hcodes, Activation.apply, if_neg huniform]

/-!
## A run
-/

variable {size : Nat} {a : Arena α} {codes : List Activation}

/-- A graph makes of each row of an input what an arena with the same parameters makes of it. -/
theorem foldl_ops (hlinear : ∀ x : α, Scalar.activate .linear x = x)
    (hbiases : a.biases.size = size) (hcodes : a.codes = codes.toArray)
    (hlength : codes.length = size) (input : Array α) (b : Nat) :
    (build size a.weights a.biases codes).ops.foldl (build size a.weights a.biases codes).apply
      (row size input b) = ((List.range size).map (a.response size input b)).toArray := by
  have hslots : codes = (List.range size).map a.codeAt := by
    apply List.ext_getElem
    · rw [List.length_map, List.length_range, hlength]
    · intro t ht ht'
      rw [List.getElem_map, List.getElem_range, Arena.codeAt, hcodes, List.getElem?_toArray,
        List.getElem?_eq_getElem ht, Option.getD_some]
  have hactivate := foldl_activationOps (g := build size a.weights a.biases codes) hlinear
  show (activationOps codes).foldl _ (apply _ (apply _ (row size input b) .multiply) .addBias) = _
  rw [apply_multiply, apply_addBias _ hbiases]
  refine (hactivate _).trans ?_
  show (Activation.apply codes _).toArray = _
  rw [hslots]
  exact congrArg List.toArray (Activation.apply_map _ _ _)

/-- A graph computes what an arena with the same parameters computes. -/
theorem run_build (hlinear : ∀ x : α, Scalar.activate .linear x = x)
    (hbiases : a.biases.size = size) (hcodes : a.codes = codes.toArray)
    (hlength : codes.length = size) (batch : Nat) (input : Array α) :
    (build size a.weights a.biases codes).run batch input =
      (a.forward size batch input).output := by
  have hrow := foldl_ops hlinear hbiases hcodes hlength input
  have hempty : size = 0 → ∀ b, (List.range size).map (a.response size input b) = [] := by
    intro hsize b
    rw [hsize]
    rfl
  apply Array.toList_inj.mp
  rw [Arena.output_forward, ← Workgroup.overRows_eq_flatMap batch hempty]
  show Workgroup.overRows size batch (fun b => (List.foldl _ (row size input b) _).toList) = _
  simp only [hrow]

end OpGraph
end Plexus
