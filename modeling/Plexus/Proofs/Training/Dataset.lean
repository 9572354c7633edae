import Plexus.Proofs.Training.Flush
import Plexus.Random.Generator
import Plexus.Training.Epochs

/-!
# Data sets of another width

The rows of a data set are handed over as cells, one row after the other, and are cut anew into
rows as wide as the network.  What was a row for the caller is a row for the network if the widths
are the same.  If they are not, the cells may still come out even, and then other rows than the
caller's are trained on.
-/

namespace Plexus
namespace Trainer

open Attempt

variable {α τ σ : Type}

/-- The cells of some rows, one row after the other. -/
def cellsOf (rows : List (Array α)) : Array α := (rows.flatMap Array.toList).toArray

theorem forall_size_iff {rows : List (Array α)} {width : Nat} (size : Nat) (hsome : rows ≠ [])
    (h : ∀ row ∈ rows, row.size = width) : (∀ row ∈ rows, row.size = size) ↔ width = size := by
  constructor
  · intro hall
    rcases List.exists_mem_of_ne_nil rows hsome with ⟨row, hrow⟩
    exact (h row hrow).symm.trans (hall row hrow)
  · rintro rfl
    exact h

theorem size_cellsOf {rows : List (Array α)} {width : Nat} (h : ∀ row ∈ rows, row.size = width) :
    (cellsOf rows).size = rows.length * width := by
  rw [cellsOf, List.size_toArray, length_flatMap_toList h]

variable [Scalar α]

/-!
## Cutting cells into rows
-/

theorem length_of_rowsOf {size : Nat} {cells : Array α} {rows : List (Array α)}
    (h : rowsOf size cells = .ok rows) : rows.length = cells.size / size := by
  rw [rowsOf] at h
  split at h
  · cases h
  · cases h
    rw [List.length_map, List.length_range]

theorem exists_rowsOf_iff {size : Nat} {cells : Array α} :
    (∃ rows, rowsOf size cells = .ok rows) ↔ size ≠ 0 ∧ size ∣ cells.size := by
  rw [Nat.dvd_iff_mod_eq_zero]
  constructor
  · rintro ⟨rows, h⟩
    rw [rowsOf] at h
    split at h
    · cases h
    · next heven =>
      rw [not_or, Decidable.not_not] at heven
      exact heven
  · rintro ⟨hsize, heven⟩
    rw [rowsOf, if_neg (not_or.mpr ⟨hsize, Decidable.not_not.mpr heven⟩)]
    exact ⟨_, rfl⟩

/-- Rows that are as wide as the network are found again. -/
theorem rowsOf_cellsOf {rows : List (Array α)} {size : Nat} (hsize : size ≠ 0)
    (h : ∀ row ∈ rows, row.size = size) : rowsOf size (cellsOf rows) = .ok rows := by
  have hcells := size_cellsOf h
  have heven : ¬(size = 0 ∨ (cellsOf rows).size % size ≠ 0) := by
    rw [hcells, Nat.mul_mod_left]
    exact not_or.mpr ⟨hsize, Decidable.not_not.mpr rfl⟩
  rw [rowsOf, if_neg heven, hcells, Nat.mul_div_cancel _ (Nat.pos_of_ne_zero hsize)]
  refine congrArg Except.ok (List.ext_getElem? fun r => ?_)
  rw [List.getElem?_map]
  cases hrow : rows[r]? with
  | none =>
      rw [List.getElem?_eq_none_iff] at hrow
      rw [List.getElem?_eq_none_iff.mpr (by rw [List.length_range]; exact hrow), Option.map_none]
  | some row =>
      have hwide := h row (List.mem_of_getElem? hrow)
      rw [List.getElem?_range (List.getElem?_eq_some_iff.mp hrow).1, Option.map_some]
      refine congrArg some (Array.ext_getElem? fun i => ?_)
      rw [List.getElem?_toArray, List.getElem?_map]
      by_cases hi : i < size
      · have hcell : (cellsOf rows)[r * size + i]? = row[i]? := by
          rw [cellsOf, List.getElem?_toArray]
          exact getElem?_flatMap_toList h hrow hi
        have hsome : row[i]? = some row[i] := Array.getElem?_eq_getElem (hwide ▸ hi)
        rw [List.getElem?_range hi, Option.map_some, Scalar.cell, hcell, hsome, Option.getD_some]
      · rw [List.getElem?_eq_none_iff.mpr (by rw [List.length_range]; omega), Option.map_none,
          Array.getElem?_eq_none (by omega)]

/-!
## Data sets
-/

/-- The samples whose inputs and targets are some rows. -/
def paired (inputs targets : List (Array α)) : List (Sample α) :=
  List.zipWith Sample.mk inputs targets

theorem dataset_eq_ok {size : Nat} {xs ts : Array α} {samples : List (Sample α)}
    (h : dataset size (.ok xs) (.ok ts) = .ok samples) :
    ∃ inputs targets, rowsOf size xs = .ok inputs ∧ rowsOf size ts = .ok targets ∧
      inputs.length = targets.length ∧ samples = paired inputs targets := by
  rw [dataset] at h
  rcases bind_eq_ok h with ⟨_, hgiven, h⟩
  cases hgiven
  rcases bind_eq_ok h with ⟨inputs, hinputs, h⟩
  rcases bind_eq_ok h with ⟨_, hgiven, h⟩
  cases hgiven
  rcases bind_eq_ok h with ⟨targets, htargets, h⟩
  rcases guard_eq_ok h with ⟨hcounts, h⟩
  cases h
  exact ⟨inputs, targets, hinputs, htargets, Decidable.not_not.mp hcounts, rfl⟩

theorem dataset_of_rows {size : Nat} {xs ts : Array α} {inputs targets : List (Array α)}
    (hinputs : rowsOf size xs = .ok inputs) (htargets : rowsOf size ts = .ok targets)
    (hcounts : inputs.length = targets.length) :
    dataset size (.ok xs) (.ok ts) = .ok (paired inputs targets) := by
  have hrest : dataset size (.ok xs) (.ok ts) = (rowsOf size xs >>= fun inputs =>
      rowsOf size ts >>= fun targets =>
        if inputs.length ≠ targets.length then
          (throw (.rowCounts inputs.length targets.length) : Except Fault Unit) >>= fun _ =>
            .ok (paired inputs targets)
        else .ok (paired inputs targets)) := rfl
  rw [hrest, hinputs, htargets]
  exact if_neg (Decidable.not_not.mpr hcounts)

theorem exists_dataset_iff {size : Nat} {xs ts : Array α} :
    (∃ samples, dataset size (.ok xs) (.ok ts) = .ok samples) ↔
      size ≠ 0 ∧ size ∣ xs.size ∧ size ∣ ts.size ∧ xs.size / size = ts.size / size := by
  constructor
  · rintro ⟨samples, h⟩
    rcases dataset_eq_ok h with ⟨inputs, targets, hinputs, htargets, hcounts, -⟩
    rcases exists_rowsOf_iff.mp ⟨inputs, hinputs⟩ with ⟨hsize, hxs⟩
    rw [← length_of_rowsOf hinputs, ← length_of_rowsOf htargets]
    exact ⟨hsize, hxs, (exists_rowsOf_iff.mp ⟨targets, htargets⟩).2, hcounts⟩
  · rintro ⟨hsize, hxs, hts, hcounts⟩
    rcases exists_rowsOf_iff.mpr ⟨hsize, hxs⟩ with ⟨inputs, hinputs⟩
    rcases exists_rowsOf_iff.mpr ⟨hsize, hts⟩ with ⟨targets, htargets⟩
    rw [← length_of_rowsOf hinputs, ← length_of_rowsOf htargets] at hcounts
    exact ⟨_, dataset_of_rows hinputs htargets hcounts⟩

/-- Rows of two widths are read if the widths are the same and their cells come out even. -/
theorem exists_dataset_cellsOf_iff {size width breadth : Nat} {inputs targets : List (Array α)}
    (hsize : size ≠ 0) (hsome : inputs ≠ []) (hcounts : inputs.length = targets.length)
    (hinputs : ∀ row ∈ inputs, row.size = width) (htargets : ∀ row ∈ targets, row.size = breadth) :
    (∃ samples, dataset size (.ok (cellsOf inputs)) (.ok (cellsOf targets)) = .ok samples) ↔
      width = breadth ∧ size ∣ inputs.length * width := by
  rw [exists_dataset_iff, size_cellsOf hinputs, size_cellsOf htargets, ← hcounts]
  constructor
  · rintro ⟨-, hxs, hts, hrows⟩
    have hcells : inputs.length * width = inputs.length * breadth := by
      rw [← Nat.div_mul_cancel hxs, hrows, Nat.div_mul_cancel hts]
    exact ⟨Nat.eq_of_mul_eq_mul_left (List.length_pos_iff.mpr hsome) hcells, hxs⟩
  · rintro ⟨rfl, hxs⟩
    exact ⟨hsize, hxs, hxs, rfl⟩

theorem dataset_cellsOf {size : Nat} {inputs targets : List (Array α)} (hsize : size ≠ 0)
    (hcounts : inputs.length = targets.length) (hinputs : ∀ row ∈ inputs, row.size = size)
    (htargets : ∀ row ∈ targets, row.size = size) :
    dataset size (.ok (cellsOf inputs)) (.ok (cellsOf targets)) = .ok (paired inputs targets) :=
  dataset_of_rows (rowsOf_cellsOf hsize hinputs) (rowsOf_cellsOf hsize htargets) hcounts

/-!
## Fitting
-/

variable [Draws σ]

/-- Trains on samples for some epochs and returns the lines of the report. -/
def fitOn (samples : List (Sample α)) (epochs : Value) (source : Except Fault (Option σ)) :
    Attempt (Trainer α τ) (List String) := do
  let e := (← get).engine
  let source ← Attempt.of source
  let count ← Attempt.of epochs.toInt
  let losses ← trainEpochs e.batch samples 0 (orders samples.length count.toNat source)
  return report epochs losses

theorem outcome_fit_of_error {inputs targets : Operand α} {epochs : Value}
    {source : Except Fault (Option σ)} {t : Trainer α τ} {f : Fault}
    (h : dataset t.engine.size inputs targets = .error f) :
    (fit inputs targets epochs source).outcome t = (.error f, t) := by
  rw [fit, outcome_get_bind]
  dsimp only
  rw [h, outcome_of_error_bind]

theorem outcome_fit_of_ok {inputs targets : Operand α} {epochs : Value}
    {source : Except Fault (Option σ)} {t : Trainer α τ} {samples : List (Sample α)}
    (h : dataset t.engine.size inputs targets = .ok samples) :
    (fit inputs targets epochs source).outcome t = (fitOn samples epochs source).outcome t := by
  rw [fit, outcome_get_bind]
  dsimp only
  rw [h, outcome_of_ok_bind, fitOn, outcome_get_bind]

omit [Draws σ] in
theorem outcome_addSample_of_misfit {xs ts : Array α} {t : Trainer α τ}
    (h : ¬(xs.size = t.engine.size ∧ ts.size = t.engine.size)) :
    ∃ f, (addSample (.ok xs) (.ok ts)).outcome t = (.error f, t) := by
  rw [addSample, outcome_get_bind]
  cases hcheck : checkSample t.engine.size (.ok xs) (.ok ts) with
  | error f => exact ⟨f, outcome_of_error_bind f _ t⟩
  | ok sample =>
      rcases checkSample_eq_ok hcheck with ⟨hxs, hts, hfits⟩
      cases hxs
      cases hts
      exact absurd hfits h

/--
A trainer that takes a data set for what it is: it refuses rows of another width than the network
has, without doing anything, and trains on all others as they are.
-/
structure TakesRows (t : Trainer α τ) (inputs targets : List (Array α)) : Prop where
  refused : ¬((∀ row ∈ inputs, row.size = t.engine.size) ∧
      ∀ row ∈ targets, row.size = t.engine.size) →
    ∀ {σ : Type} [Draws σ] (epochs : Value) (source : Except Fault (Option σ)), ∃ f,
      (fit (.ok (cellsOf inputs)) (.ok (cellsOf targets)) epochs source).outcome t = (.error f, t)
  taken : (∀ row ∈ inputs, row.size = t.engine.size) →
    (∀ row ∈ targets, row.size = t.engine.size) →
    ∀ {σ : Type} [Draws σ] (epochs : Value) (source : Except Fault (Option σ)),
      (fit (.ok (cellsOf inputs)) (.ok (cellsOf targets)) epochs source).outcome t =
        (fitOn (paired inputs targets) epochs source).outcome t

omit [Draws σ] in
/--
Rows of the width of the network are trained on as they are.  Rows of another width are refused one
by one; together they are refused unless inputs and targets are of one width and all their cells
come out even.
-/
theorem takesRows_iff {t : Trainer α τ} {inputs targets : List (Array α)} {width breadth : Nat}
    (hsize : t.engine.size ≠ 0) (hsome : inputs ≠ []) (hcounts : inputs.length = targets.length)
    (hinputs : ∀ row ∈ inputs, row.size = width) (htargets : ∀ row ∈ targets, row.size = breadth) :
    (TakesRows t inputs targets ↔ ¬(width ≠ t.engine.size ∧ width = breadth ∧
        t.engine.size ∣ inputs.length * width)) ∧
      (¬(width = t.engine.size ∧ breadth = t.engine.size) → ∀ xs ∈ inputs, ∀ ts ∈ targets,
        ∃ f, (addSample (.ok xs) (.ok ts)).outcome t = (.error f, t)) := by
  have htargetsSome : targets ≠ [] := by
    rw [← List.length_pos_iff] at hsome ⊢
    omega
  have hfits := and_congr (forall_size_iff t.engine.size hsome hinputs)
    (forall_size_iff t.engine.size htargetsSome htargets)
  have hread := exists_dataset_cellsOf_iff hsize hsome hcounts hinputs htargets
  refine ⟨⟨?refused, fun hodd => ⟨?misfits, ?fits⟩⟩, ?samples⟩
  case refused =>
    rintro htakes ⟨hother, rfl, heven⟩
    rcases hread.mpr ⟨rfl, heven⟩ with ⟨samples, hsamples⟩
    have hmisfits := fun h => hother (hfits.mp h).1
    -- Not even no epochs at all would be refused.
    rcases htakes.refused hmisfits (.int 0) (.ok (none : Option Generator)) with ⟨f, hfails⟩
    rw [outcome_fit_of_ok hsamples] at hfails
    cases hfails
  case misfits =>
    intro hmisfits ρ _ epochs source
    cases hdata : dataset t.engine.size (.ok (cellsOf inputs)) (.ok (cellsOf targets)) with
    | error f => exact ⟨f, outcome_fit_of_error hdata⟩
    | ok samples =>
        rcases hread.mp ⟨samples, hdata⟩ with ⟨rfl, heven⟩
        have hwide : width = t.engine.size := by
          by_contra hother
          exact hodd ⟨hother, rfl, heven⟩
        exact absurd (hfits.mpr ⟨hwide, hwide⟩) hmisfits
  case fits =>
    intro hin hout ρ _ epochs source
    exact outcome_fit_of_ok (dataset_cellsOf hsize hcounts hin hout)
  case samples =>
    intro hmisfits xs hxs ts hts
    apply outcome_addSample_of_misfit
    rw [hinputs xs hxs, htargets ts hts]
    exact hmisfits

/-- A trainer on a network of two slots. -/
def paced : Trainer Float32 Float := ⟨pairing, 0.0, .fresh⟩

theorem size_paced : paced.engine.size = 2 := by decide +kernel

/-- The cells of one row of three do not come out even. -/
theorem takesRows_iff_paced :
    TakesRows paced [#[1.0, 0.0, 1.0]] [#[0.0, 1.0, 0.0]] ∧
      ∃ f, (addSample (.ok #[1.0, 0.0, 1.0]) (.ok #[0.0, 1.0, 0.0])).outcome paced =
        (.error f, paced) := by
  have hsize : paced.engine.size ≠ 0 := by
    rw [size_paced]
    decide
  have hcounts : [(#[1.0, 0.0, 1.0] : Array Float32)].length =
      [(#[0.0, 1.0, 0.0] : Array Float32)].length := by decide
  rcases takesRows_iff hsize (List.cons_ne_nil _ _) hcounts (List.forall_mem_singleton.mpr rfl)
    (List.forall_mem_singleton.mpr rfl) with ⟨htakes, hrefused⟩
  rw [size_paced] at htakes hrefused
  exact ⟨htakes.mpr (by decide), hrefused (by decide) _ List.mem_cons_self _ List.mem_cons_self⟩

/-- Inputs and targets of two samples for a network of one slot. -/
def shortRows : List (Array Float32) × List (Array Float32) :=
  ([#[1.0], #[0.0]], [#[0.5], #[0.25]])

/-- A fit for one epoch, in order. -/
def fitShort : Attempt (Trainer Float32 Float) (List String) :=
  fit (.ok (cellsOf shortRows.1)) (.ok (cellsOf shortRows.2)) (.int 1)
    (.ok (none : Option Generator))

/-- Two rows of one are taken for one row of two, and trained on. -/
theorem other_rows_taken_paced :
    ¬TakesRows paced shortRows.1 shortRows.2 ∧ (fitShort.after paced).loop.ticks = 1 := by
  have hsize : paced.engine.size ≠ 0 := by
    rw [size_paced]
    decide
  have hsome : shortRows.1 ≠ [] := List.cons_ne_nil _ _
  have hcounts : shortRows.1.length = shortRows.2.length := by decide
  have hinputs : ∀ row ∈ shortRows.1, row.size = 1 := by decide
  have htargets : ∀ row ∈ shortRows.2, row.size = 1 := by decide
  have htakes := (takesRows_iff hsize hsome hcounts hinputs htargets).1
  rw [size_paced] at htakes
  exact ⟨fun h => htakes.mp h (by decide), by decide +kernel⟩

end Trainer
end Plexus
