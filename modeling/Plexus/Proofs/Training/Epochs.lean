import Plexus.Proofs.Training.Dataset

/-!
# What an epoch trains on

An epoch cuts the samples, in an order of its own, into batches of which only the last one may be
short.  Whatever the order is, every sample is in one batch, so that every epoch trains on all of
them once, in as many ticks as there are batches.
-/

namespace Plexus

open Attempt

/-!
## Random orders
-/

namespace Draws

variable {σ : Type} [Draws σ]

theorem perm_swap (xs : Array Nat) (i j : Nat) : (swap xs i j).toList.Perm xs.toList := by
  unfold swap
  split
  · next x y hx hy =>
    rcases Array.getElem?_eq_some_iff.mp hx with ⟨hi, rfl⟩
    rcases Array.getElem?_eq_some_iff.mp hy with ⟨hj, rfl⟩
    have hswap : (xs.setIfInBounds i xs[j]).setIfInBounds j xs[i] = xs.swap i j := by
      simp only [Array.swap_def, Array.setIfInBounds, hi, hj, dif_pos, Array.size_set]
    rw [hswap]
    exact Array.perm_iff_toList_perm.mp (Array.swap_perm hi hj)
  · exact List.Perm.refl _

theorem perm_shuffleFrom (i : Nat) (xs : Array Nat) (s : σ) :
    (shuffleFrom i xs s).1.toList.Perm xs.toList := by
  induction i generalizing xs s with
  | zero => exact List.Perm.refl _
  | succ i ih => exact (ih _ _).trans (perm_swap xs _ _)

theorem perm_permutation (n : Nat) (s : σ) : (permutation n s).1.Perm (List.range n) := by
  have hshuffled := perm_shuffleFrom (n - 1) (Array.range n) s
  rw [Array.toList_range] at hshuffled
  exact hshuffled

end Draws

/-!
## Batches
-/

/-- Cuts rows into batches; the last one may be short. -/
def cut {β : Type} (size : Nat) (rows : List β) : List (List β) :=
  (List.range ((rows.length + size - 1) / size)).map fun k => (rows.drop (k * size)).take size

section Cut

variable {β : Type} {size : Nat}

theorem length_cut (size : Nat) (rows : List β) :
    (cut size rows).length = (rows.length + size - 1) / size := by
  rw [cut, List.length_map, List.length_range]

theorem cut_nil (hsize : 0 < size) : cut size ([] : List β) = [] := by
  have hnone : (0 + size - 1) / size = 0 := Nat.div_eq_of_lt (by omega)
  rw [cut, List.length_nil, hnone]
  rfl

theorem cut_of_ne_nil {rows : List β} (hsize : 0 < size) (hsome : rows ≠ []) :
    cut size rows = rows.take size :: cut size (rows.drop size) := by
  have hpos := List.length_pos_iff.mpr hsome
  have hcount : (rows.length + size - 1) / size =
      (rows.length - size + size - 1) / size + 1 := by
    by_cases hlong : size ≤ rows.length
    · rw [← Nat.add_div_right _ hsize]
      congr 1
      omega
    · have hone : rows.length - size + size - 1 = size - 1 := by omega
      have hshort : rows.length + size - 1 = rows.length - 1 + size := by omega
      rw [hone, hshort, Nat.add_div_right _ hsize, Nat.div_eq_of_lt (by omega),
        Nat.div_eq_of_lt (by omega)]
  rw [cut, hcount, List.range_succ_eq_map, List.map_cons, Nat.zero_mul, List.drop_zero,
    List.map_map, cut, List.length_drop]
  refine congrArg _ (List.map_congr_left fun k _ => ?_)
  rw [Function.comp_apply, List.drop_drop, Nat.succ_mul, Nat.add_comm]

theorem cut_of_short {rows : List β} (hsome : rows ≠ []) (hshort : rows.length ≤ size) :
    cut size rows = [rows] := by
  have hsize : 0 < size := Nat.lt_of_lt_of_le (List.length_pos_iff.mpr hsome) hshort
  rw [cut_of_ne_nil hsize hsome, List.take_of_length_le hshort, List.drop_of_length_le hshort,
    cut_nil hsize]

theorem cut_append {front : List β} (hsize : 0 < size) (hfull : front.length = size)
    (rest : List β) : cut size (front ++ rest) = front :: cut size rest := by
  have hsome : front ++ rest ≠ [] := by
    rw [← List.length_pos_iff, List.length_append]
    omega
  rw [cut_of_ne_nil hsize hsome, List.take_left' hfull, List.drop_left' hfull]

theorem flatten_cut (hsize : 0 < size) (rows : List β) : (cut size rows).flatten = rows := by
  induction hlength : rows.length using Nat.strongRecOn generalizing rows with
  | _ n ih =>
      by_cases hsome : rows = []
      · rw [hsome, cut_nil hsize, List.flatten_nil]
      · have hshorter : (rows.drop size).length < n := by
          have hpos := List.length_pos_iff.mpr hsome
          rw [List.length_drop]
          omega
        rw [cut_of_ne_nil hsize hsome, List.flatten_cons, ih _ hshorter _ rfl,
          List.take_append_drop]

end Cut

theorem filterMap_range {β : Type} (rows : List β) :
    (List.range rows.length).filterMap (fun r => rows[r]?) = rows := by
  induction rows with
  | nil => rfl
  | cons row rest ih =>
      rw [List.length_cons, List.range_succ_eq_map, List.filterMap_cons, List.getElem?_cons_zero,
        List.filterMap_map]
      exact congrArg (row :: ·) ih

namespace Trainer

variable {α τ σ : Type}

/-- Samples in the order of some row numbers. -/
def inOrder (samples : List (Sample α)) (order : List Nat) : List (Sample α) :=
  order.filterMap fun r => samples[r]?

theorem perm_inOrder {samples : List (Sample α)} {order : List Nat}
    (h : order.Perm (List.range samples.length)) : (inOrder samples order).Perm samples := by
  have hrows := h.filterMap fun r => samples[r]?
  rw [filterMap_range] at hrows
  exact hrows

theorem inOrder_range (samples : List (Sample α)) :
    inOrder samples (List.range samples.length) = samples :=
  filterMap_range samples

theorem batches_eq_cut {samples : List (Sample α)} {order : List Nat}
    (h : order.Perm (List.range samples.length)) (batch : Nat) :
    batches batch samples order = cut batch (inOrder samples order) := by
  rw [cut, (perm_inOrder h).length_eq]
  rfl

variable [Draws σ]

theorem length_orders (n epochs : Nat) (source : Option σ) :
    (orders n epochs source).length = epochs := by
  have hshuffled : ∀ s : σ, (shuffledOrders n epochs s).length = epochs := by
    induction epochs with
    | zero => exact fun _ => rfl
    | succ epochs ih => exact fun s => congrArg (· + 1) (ih _)
  cases source with
  | none => exact List.length_replicate
  | some s => exact hshuffled s

theorem perm_of_mem_orders {n epochs : Nat} {source : Option σ} {order : List Nat}
    (h : order ∈ orders n epochs source) : order.Perm (List.range n) := by
  have hshuffled : ∀ s : σ, order ∈ shuffledOrders n epochs s → order.Perm (List.range n) := by
    clear h
    induction epochs with
    | zero => exact fun _ hnone => absurd hnone List.not_mem_nil
    | succ epochs ih =>
        intro s hmem
        rcases List.mem_cons.mp hmem with rfl | hmem
        · exact Draws.perm_permutation n s
        · exact ih _ hmem
  cases source with
  | none =>
      rw [List.eq_of_mem_replicate h]
  | some s => exact hshuffled s h

/-!
## Passes
-/

variable [Scalar α]

omit [Draws σ]

/-- Trains on groups of samples, one after the other, and returns the loss of each. -/
def trainEach : List (List (Sample α)) → Attempt (Trainer α τ) (List α)
  | [] => return []
  | samples :: rest => do
      let loss ← trainOn samples
      let losses ← trainEach rest
      return loss :: losses

/-- The mean of some losses. -/
def meanLoss (losses : List α) : Float :=
  if losses.isEmpty then 0.0
  else losses.foldl (fun sum loss => sum + Scalar.toFloat loss) 0.0 / Float.ofNat losses.length

/-- Ends an epoch: notes its mean loss down, and tells the audience. -/
def endEpoch (epoch : Nat) (loss : Float) : Attempt (Trainer α τ) Unit := do
  updateLoop fun l =>
    { l with history := ⟨l.history.losses ++ [loss], l.history.epochs ++ [epoch]⟩ }
  onEngine (Engine.onAudience (Audience.emit ⟨.epoch, Float.ofNat epoch⟩))

/-- Trains on the groups of an epoch and returns their mean loss. -/
def trainPass (epoch : Nat) (groups : List (List (Sample α))) :
    Attempt (Trainer α τ) Float := do
  let losses ← trainEach groups
  endEpoch epoch (meanLoss losses)
  return meanLoss losses

/-- Trains on the groups of some epochs and returns the mean loss of each. -/
def trainPasses : Nat → List (List (List (Sample α))) → Attempt (Trainer α τ) (List Float)
  | _, [] => return []
  | epoch, groups :: rest => do
      let loss ← trainPass epoch groups
      let losses ← trainPasses (epoch + 1) rest
      return loss :: losses

/-- What training goes by. -/
def plan (t : Trainer α τ) : Option (Compiled α) × TrainingSettings := t.engine.plan

omit [Scalar α] in
theorem plan_updateLoop (f : TrainingLoop α τ → TrainingLoop α τ) :
    Respects (Fixes plan) (updateLoop f) :=
  respects_modify fun _ => rfl

omit [Scalar α] in
theorem plan_onEngine {β : Type} {step : Attempt (Engine α) β}
    (h : Respects (Fixes Engine.plan) step) :
    Respects (Fixes plan) (onEngine step : Attempt (Trainer α τ) β) := by
  intro t
  rw [onEngine, after, outcome_onPart]
  exact h t.engine

theorem plan_trainOn (samples : List (Sample α)) :
    Respects (Fixes plan) (trainOn samples : Attempt (Trainer α τ) α) := by
  refine respects_get_bind fun t => ?_
  refine ((respects_of _).bind fun _ => (respects_of _).bind fun packed => ?_) t
  exact (plan_onEngine (Engine.plan_trainTick _ _ _)).bind fun _ =>
    (plan_updateLoop _).bind fun _ => respects_pure _

theorem plan_trainEach (groups : List (List (Sample α))) :
    Respects (Fixes plan) (trainEach groups : Attempt (Trainer α τ) (List α)) := by
  induction groups with
  | nil => exact respects_pure _
  | cons samples rest ih =>
      exact (plan_trainOn samples).bind fun _ => ih.bind fun _ => respects_pure _

omit [Scalar α] in
theorem plan_endEpoch (epoch : Nat) (loss : Float) :
    Respects (Fixes plan) (endEpoch epoch loss : Attempt (Trainer α τ) Unit) := by
  refine (plan_updateLoop _).bind fun _ => plan_onEngine fun e => ?_
  rw [Engine.onAudience, after, outcome_onPart]
  rfl

theorem plan_trainPass (epoch : Nat) (groups : List (List (Sample α))) :
    Respects (Fixes plan) (trainPass epoch groups : Attempt (Trainer α τ) Float) :=
  (plan_trainEach groups).bind fun _ => (plan_endEpoch epoch _).bind fun _ => respects_pure _

theorem length_of_trainEach {groups : List (List (Sample α))} {t t' : Trainer α τ}
    {losses : List α} (h : (trainEach groups).outcome t = (.ok losses, t')) :
    losses.length = groups.length ∧ t'.loop.ticks = t.loop.ticks + groups.length := by
  induction groups generalizing t losses with
  | nil =>
      cases h
      exact ⟨rfl, rfl⟩
  | cons samples rest ih =>
      rcases outcome_bind_eq_ok h with ⟨loss, t₁, htrain, h⟩
      rcases outcome_bind_eq_ok h with ⟨others, t₂, hrest, h⟩
      cases h
      rcases ticked_of_trainOn htrain with ⟨packed, hticked⟩
      rcases ih hrest with ⟨hlength, hticks⟩
      have hone : t₁.loop.ticks = t.loop.ticks + 1 := by rw [hticked.loop]
      refine ⟨congrArg (· + 1) hlength, ?_⟩
      rw [hticks, hone, List.length_cons]
      omega

/-- Adding the losses up as they come is the same as adding them up in the end. -/
theorem outcome_trainBatches (total : Float) (groups : List (List (Sample α)))
    (t : Trainer α τ) :
    (trainBatches total groups).outcome t = (trainEach groups >>= fun losses => pure
      (losses.foldl (fun sum loss => sum + Scalar.toFloat loss) total)).outcome t := by
  induction groups generalizing total t with
  | nil => rfl
  | cons samples rest ih =>
      rw [trainBatches, trainEach, bind_assoc]
      refine outcome_bind_congr fun loss t' _ => ?_
      rw [ih, bind_assoc]
      rfl

/-- An epoch is a pass over its batches. -/
theorem outcome_trainEpoch {t : Trainer α τ} (h : t.Batched) (batch : Nat)
    (samples : List (Sample α)) (epoch : Nat) (order : List Nat) :
    (trainEpoch batch samples epoch order).outcome t =
      (trainPass epoch (batches batch samples order)).outcome t := by
  rcases Option.isSome_iff_exists.mp h with ⟨rows, hrows⟩
  rw [trainEpoch, outcome_get_bind, Number.toInt_eq, hrows]
  dsimp only
  rw [outcome_of_ok_bind, outcome_bind_of_eq (outcome_trainBatches 0.0 _ t), bind_assoc, trainPass]
  -- As many losses come back as there are batches, so that both divide by the same number.
  refine outcome_bind_congr fun losses t' hrun => ?_
  have hlength := (length_of_trainEach hrun).1
  have hempty : losses.isEmpty = (batches batch samples order).isEmpty := by
    rw [Bool.eq_iff_iff, List.isEmpty_iff_length_eq_zero, List.isEmpty_iff_length_eq_zero, hlength]
  rw [pure_bind, meanLoss, hlength, hempty, endEpoch, bind_assoc]

theorem outcome_trainEpochs {t : Trainer α τ} (h : t.Batched) (batch : Nat)
    (samples : List (Sample α)) (epoch : Nat) (orders : List (List Nat)) :
    (trainEpochs batch samples epoch orders).outcome t =
      (trainPasses epoch (orders.map (batches batch samples))).outcome t := by
  induction orders generalizing epoch t with
  | nil => rfl
  | cons order rest ih =>
      rw [trainEpochs, List.map_cons, trainPasses,
        outcome_bind_of_eq (outcome_trainEpoch h batch samples epoch order)]
      refine outcome_bind_congr fun loss t' hrun => ?_
      have hplan := plan_trainPass epoch (batches batch samples order) t
      rw [after_of_outcome hrun] at hplan
      exact outcome_bind_of_eq (ih (h.of_plan hplan) _) _

/-- Training on samples runs a pass over all their batches for each epoch. -/
theorem outcome_fitOn [Draws σ] {t : Trainer α τ} {epochs : Value} {count : Int}
    (h : t.Batched) (hepochs : epochs.toInt = .ok count) (samples : List (Sample α))
    (source : Option σ) :
    (fitOn samples epochs (.ok source)).outcome t =
      (trainPasses 0 ((orders samples.length count.toNat source).map
        (batches t.engine.batch samples)) >>= fun losses => pure (report epochs losses)).outcome
        t := by
  rw [fitOn, outcome_get_bind]
  dsimp only
  rw [outcome_of_ok_bind, hepochs, outcome_of_ok_bind]
  exact outcome_bind_of_eq (outcome_trainEpochs h _ _ _ _) _

omit [Scalar α] in
/-- Whatever the order in an epoch, its batches hold every sample once. -/
theorem batches_of_mem [Draws σ] {samples : List (Sample α)} {batch count : Nat}
    {source : Option σ} {groups : List (List (Sample α))} (hbatch : 0 < batch)
    (h : groups ∈ (orders samples.length count source).map (batches batch samples)) :
    groups.flatten.Perm samples ∧ groups.length = (samples.length + batch - 1) / batch := by
  rcases List.mem_map.mp h with ⟨order, horder, rfl⟩
  have hperm := perm_of_mem_orders horder
  rw [batches_eq_cut hperm, flatten_cut hbatch, length_cut, (perm_inOrder hperm).length_eq]
  exact ⟨perm_inOrder hperm, rfl⟩

/-- A trainer that differs from another one at most in what was reported of its epochs. -/
def Reported (t t' : Trainer α τ) : Prop :=
  ∃ audience history, t' = {
    t with
    engine := { t.engine with audience }
    loop := { t.loop with history } }

omit [Scalar α] in
theorem reported_endEpoch (epoch : Nat) (loss : Float) (t : Trainer α τ) :
    Reported t ((endEpoch epoch loss).after t) :=
  ⟨_, _, rfl⟩

/-- The end of an epoch adds nothing to its ticks but what is reported. -/
theorem reported_trainPass (epoch : Nat) (groups : List (List (Sample α))) (t : Trainer α τ) :
    Reported ((trainEach groups).after t) ((trainPass epoch groups).after t) := by
  cases hrun : (trainEach groups).outcome t with
  | mk r t' =>
      rw [after_of_outcome hrun]
      cases r with
      | error f =>
          rw [trainPass, after_of_outcome (outcome_bind_of_error hrun _)]
          exact ⟨_, _, rfl⟩
      | ok losses =>
          rw [trainPass, after, outcome_bind_of_ok hrun, ← after, after_bind_pure]
          exact reported_endEpoch epoch (meanLoss losses) t'

theorem ticks_of_trainPass {epoch : Nat} {groups : List (List (Sample α))} {t t' : Trainer α τ}
    {loss : Float} (h : (trainPass epoch groups).outcome t = (.ok loss, t')) :
    t'.loop.ticks = t.loop.ticks + groups.length := by
  rcases outcome_bind_eq_ok h with ⟨losses, t₁, htrain, h⟩
  rcases outcome_bind_eq_ok h with ⟨_, t₂, hend, h⟩
  cases h
  rcases reported_endEpoch epoch (meanLoss losses) t₁ with ⟨audience, history, hreported⟩
  rw [after_of_outcome hend] at hreported
  rw [hreported]
  exact (length_of_trainEach htrain).2

theorem ticks_of_trainPasses {passes : List (List (List (Sample α)))} {epoch count : Nat}
    {t t' : Trainer α τ} {losses : List Float}
    (hcount : ∀ groups ∈ passes, groups.length = count)
    (h : (trainPasses epoch passes).outcome t = (.ok losses, t')) :
    t'.loop.ticks = t.loop.ticks + passes.length * count := by
  induction passes generalizing epoch t losses with
  | nil =>
      cases h
      rw [List.length_nil, Nat.zero_mul, Nat.add_zero]
  | cons groups rest ih =>
      rcases outcome_bind_eq_ok h with ⟨loss, t₁, hpass, h⟩
      rcases outcome_bind_eq_ok h with ⟨others, t₂, hrest, h⟩
      cases h
      rw [ih (fun others hothers => hcount others (List.mem_cons_of_mem groups hothers)) hrest,
        ticks_of_trainPass hpass, hcount groups List.mem_cons_self, List.length_cons, Nat.succ_mul]
      omega

end Trainer
end Plexus
