import Plexus.Proofs.Backend.Descent
import Plexus.Proofs.Engine.Tick

/-!
# What an engine learns in a training tick

A training tick of an engine takes over its targets, runs forward, reports the loss and lets the
backend train.  Where no step of it fails, all that it leaves is known: the loss, the deltas and
the parameters follow from the arena before it, the input and the targets.
-/

namespace Plexus

/-!
## A training tick of an arena
-/

namespace Arena

variable {α : Type} [Scalar α] {size rows : Nat}

/-- The arena after a training tick on an input: a forward tick, and a whole update after it. -/
def learn (a : Arena α) (size rows : Nat) (t : TrainingBuffers α) (xs : Array α) : Arena α :=
  (forward { a with training := some t } size rows xs).train size rows none t none

/-- The delta that slot `i` of row `r` has once an input has been run; zero without supervision. -/
def signal (a : Arena α) (size : Nat) (xs targets : Array α) (r i : Nat) : α :=
  let y := a.response size xs r i
  let target := Scalar.cell targets (r * size + i)
  if Scalar.supervised target then
    Scalar.mul (Scalar.sub y target) (Scalar.slope (a.codeAt i) y)
  else Scalar.zero

theorem cell_output_forward (a : Arena α) (xs : Array α) {r i : Nat} (hr : r < rows)
    (hi : i < size) :
    Scalar.cell (a.forward size rows xs).output (r * size + i) = a.response size xs r i := by
  rw [Scalar.cell, getElem?_output_forward a xs hr hi]
  rfl

theorem delta_forward (a : Arena α) (xs targets : Array α) {r i : Nat} (hr : r < rows)
    (hi : i < size) :
    (a.forward size rows xs).delta size targets r i = a.signal size xs targets r i := by
  rw [delta, cell_output_forward a xs hr hi]
  rfl

/-- The deltas that a training tick leaves. -/
def learned (a : Arena α) (size rows : Nat) (t : TrainingBuffers α) (xs : Array α) : Array α :=
  (forward { a with training := some t } size rows xs).deltas size rows t

theorem getElem?_learned (a : Arena α) (t : TrainingBuffers α) (xs : Array α) {r i : Nat}
    (hr : r < rows) (hi : i < size) :
    (a.learned size rows t xs)[r * size + i]? =
      some (Scalar.store t.precision (a.signal size xs t.targets r i)) := by
  rw [learned, getElem?_deltas _ t hr hi, delta_forward _ xs t.targets hr hi]
  rfl

theorem cell_learned (a : Arena α) (t : TrainingBuffers α) (xs : Array α) {r i : Nat}
    (hr : r < rows) (hi : i < size) :
    Scalar.cell (a.learned size rows t xs) (r * size + i) =
      Scalar.store t.precision (a.signal size xs t.targets r i) := by
  rw [Scalar.cell, getElem?_learned a t xs hr hi]
  rfl

theorem getElem?_weights_learn (a : Arena α) (t : TrainingBuffers α) (xs : Array α) {i s : Nat}
    (hi : i < size) (hs : s < size) :
    (a.learn size rows t xs).weights[i * size + s]? =
      a.weights[i * size + s]?.map fun w => descend a.precision t.rate w
        (Scalar.sumTo rows fun r =>
          Scalar.mul (Scalar.store t.precision (a.signal size xs t.targets r i))
            (Scalar.cell xs (r * size + s))) := by
  have hgradient : weightGradient (forward { a with training := some t } size rows xs) size rows
      (a.learned size rows t xs) i s = Scalar.sumTo rows fun r =>
        Scalar.mul (Scalar.store t.precision (a.signal size xs t.targets r i))
          (Scalar.cell xs (r * size + s)) :=
    Scalar.sumTo_congr fun r hr => by rw [cell_learned a t xs hr hi]; rfl
  rw [← hgradient]
  exact getElem?_weights_train _ rows hi hs t none

theorem getElem?_biases_learn (a : Arena α) (t : TrainingBuffers α) (xs : Array α) {i : Nat}
    (hi : i < size) :
    (a.learn size rows t xs).biases[i]? =
      a.biases[i]?.map fun x => descend a.precision t.rate x
        (Scalar.sumTo rows fun r => Scalar.store t.precision (a.signal size xs t.targets r i)) := by
  have hgradient : biasGradient size rows (a.learned size rows t xs) i =
      Scalar.sumTo rows fun r => Scalar.store t.precision (a.signal size xs t.targets r i) :=
    Scalar.sumTo_congr fun r hr => cell_learned a t xs hr hi
  rw [← hgradient]
  exact getElem?_biases_train _ rows hi t none

/-- An update leaves no more weights than there are places for. -/
theorem size_weights_learn_le (a : Arena α) (t : TrainingBuffers α) (xs : Array α) :
    (a.learn size rows t xs).weights.size ≤ size * size := by
  show (a.weights.zipWith _ (weightGradients _ size rows _)).size ≤ _
  rw [Array.size_zipWith, size_weightGradients]
  exact Nat.min_le_right _ _

theorem size_biases_learn_le (a : Arena α) (t : TrainingBuffers α) (xs : Array α) :
    (a.learn size rows t xs).biases.size ≤ size := by
  show (a.biases.zipWith _ (biasGradients size rows _)).size ≤ _
  rw [Array.size_zipWith, size_biasGradients]
  exact Nat.min_le_right _ _

end Arena

namespace Backend

variable {α : Type} {settings : TrainingSettings} {rows : Nat} {a : Arena α} {b : Backend α}

theorem Holds.withTraining_self {t : TrainingBuffers α} (h : b.Holds settings rows a)
    (ht : a.training = some t) : b.withTraining settings a t = b := by
  have hsame : { a with training := some t } = a := by
    rw [← ht]
  have hstage : b.stage = .trainable := by
    rw [h.stage, ht]
    rfl
  rw [withTraining, hsame, ← h.machine, ← hstage]

end Backend

namespace Engine

open Attempt

variable {α : Type}

/-!
## Targets, rate and precision
-/

/-- The targets of a training tick: those that are given, or those that are kept. -/
def aim (e : Engine α) : Option (Operand α) → Option (Array α)
  | some targets => targets.toOption
  | none => e.targets

/-- The deltas that the backend holds. -/
def deltas (e : Engine α) : Option (Array α) :=
  ((e.backend.bind Backend.arena).bind Arena.training).map TrainingBuffers.deltas

/-- The engine with some buffers of training, and with their targets. -/
def aimed (a : Arena α) (b : Backend α) (t : TrainingBuffers α) (e : Engine α) : Engine α :=
  { e with backend := some (b.withTraining e.training a t), targets := some t.targets }

theorem Fits.size_eq {c : Compiled α} {rows : Nat} {a : Arena α} {b : Backend α} {e : Engine α}
    (hc : e.compiled = some c) (h : e.Fits c rows a b) : e.size = c.size :=
  (h.engineSize_eq hc).trans h.backendSize

theorem Fits.one_le_rows {c : Compiled α} {rows : Nat} {a : Arena α} {b : Backend α}
    {e : Engine α} (h : e.Fits c rows a b) : 1 ≤ rows := by
  rw [← h.batch_eq]
  apply TrainingSettings.count_microBatchSize_pos
  rw [h.batch]
  rfl

variable [Scalar α]

/--
The rate that the next training tick goes by, and the precision that it stores deltas in: those that
training was prepared with, or else those that it would be prepared with.
-/
def terms (e : Engine α) : Option (α × Precision) :=
  match (e.backend.bind Backend.arena).bind Arena.training with
  | some t => some (t.rate, t.precision)
  | none => e.rate.toFloat.toOption.map fun x => (Scalar.ofFloat x, e.training.adapterPrecision)

section Retarget

variable {c : Compiled α} {rows : Nat} {a : Arena α} {b : Backend α} {e e' : Engine α}

theorem terms_eq (h : e.Fits c rows a b) :
    e.terms =
      match a.training with
      | some t => some (t.rate, t.precision)
      | none => e.rate.toFloat.toOption.map fun x =>
          (Scalar.ofFloat x, e.training.adapterPrecision) := by
  have harena : e.backend.bind Backend.arena = some a := by
    rw [h.backend, Option.bind_some, Backend.arena, Backend.held, h.holds.machine]
    rfl
  rw [terms, harena]
  rfl

theorem exists_terms (h : e.Fits c rows a b) (hrate : ∃ x, e.rate.toFloat = .ok x) :
    ∃ rate precision, e.terms = some (rate, precision) := by
  rw [terms_eq h]
  cases a.training with
  | some t => exact ⟨_, _, rfl⟩
  | none =>
      rcases hrate with ⟨x, hx⟩
      rw [hx]
      exact ⟨_, _, rfl⟩

theorem outcome_supervise {ts : Array α} {x : Float} (h : e.Fits c rows a b)
    (hts : ts.size = b.size * rows) (hx : e.rate.toFloat = .ok x) :
    (supervise (.ok ts)).outcome e =
      (.ok (), e.aimed a b (.allocate e.training.adapterPrecision b.size rows ts x)) := by
  rw [supervise, outcome_get_bind, outcome_bind, outcome_onBackend h.backend, hx,
    h.holds.prepareTraining_of_fits hts x]
  rfl

/-- Targets that fit are taken over, with the rate and the precision of the next training tick. -/
theorem retarget_of_fits {ts : Array α} {rate : α} {precision : Precision}
    (hc : e.compiled = some c) (h : e.Fits c rows a b) (hts : ts.size = b.size * rows)
    (hterms : e.terms = some (rate, precision)) :
    ∃ t : TrainingBuffers α, t.targets = ts ∧ t.rate = rate ∧ t.precision = precision ∧
      (retarget (some (.ok ts))).outcome e = (.ok (), e.aimed a b t) := by
  have hstage := h.holds.stage
  rw [terms_eq h] at hterms
  rw [retarget, outcome_get_bind]
  simp only [h.backend]
  cases ht : a.training with
  | some t =>
      have htrainable : ¬b.stage < .trainable := by
        rw [hstage, ht]
        exact (by decide : ¬Stage.trainable < .trainable)
      rw [ht] at hterms
      cases hterms
      refine ⟨{ t with targets := ts }, rfl, rfl, rfl, ?_⟩
      rw [if_neg htrainable, outcome_bind, outcome_onBackend h.backend,
        h.holds.setTargets_of_fits ht hts]
      rfl
  | none =>
      have hcompiled : b.stage < .trainable := by
        rw [hstage, ht]
        exact (by decide : Stage.compiled < .trainable)
      rw [ht] at hterms
      cases hrate : e.rate.toFloat with
      | error f =>
          rw [hrate] at hterms
          cases hterms
      | ok x =>
          rw [hrate] at hterms
          cases hterms
          refine ⟨.allocate e.training.adapterPrecision b.size rows ts x, rfl, rfl, rfl, ?_⟩
          rw [if_pos hcompiled, prepareTraining,
            outcome_bind_of_ok (outcome_requireTrainable hc h _), takeRate, outcome_pure_bind]
          exact outcome_supervise h hts hrate

/-- What a training tick aims at, once it has its targets. -/
theorem retarget_eq_ok {targets : Option (Operand α)} (he : e.Equipped) (hc : e.compiled = some c)
    (h : e.Fits c rows a b) (hrun : (retarget targets).outcome e = (.ok (), e')) :
    ∃ t : TrainingBuffers α, e' = e.aimed a b t ∧ t.targets.size = b.size * rows ∧
      e.terms = some (t.rate, t.precision) ∧ e.aim targets = some t.targets := by
  cases targets with
  | some ts =>
      rcases retarget_cases he hc h ts with ⟨f, hfails⟩ | ⟨t₀, rfl, hsize, hrate, -⟩
      · rw [hfails] at hrun
        cases hrun
      · rcases exists_terms h hrate with ⟨rate, precision, hterms⟩
        rcases retarget_of_fits hc h hsize hterms with ⟨t, htargets, rfl, rfl, hok⟩
        rw [hok] at hrun
        cases hrun
        exact ⟨t, rfl, htargets ▸ hsize, hterms, congrArg some htargets.symm⟩
  | none =>
      -- Without targets, those that were kept are those of the backend.
      rw [retarget, outcome_get_bind] at hrun
      dsimp only at hrun
      cases ht : a.training with
      | none =>
          rw [h.targets, ht] at hrun
          cases hrun
      | some t =>
          have htargets : e.targets = some t.targets := by
            rw [h.targets, ht]
            rfl
          rw [htargets] at hrun
          cases hrun
          refine ⟨t, ?_, h.holds.targets t ht, ?_, htargets⟩
          · rw [aimed, h.holds.withTraining_self ht, ← h.backend, ← htargets]
          · rw [terms_eq h, ht]

/-- A training tick takes over targets that fit, or goes by those that are kept. -/
theorem exists_retarget {targets : Option (Operand α)} {ts : Array α} (he : e.Equipped)
    (hc : e.compiled = some c) (h : e.Fits c rows a b) (hrate : ∃ x, e.rate.toFloat = .ok x)
    (haim : e.aim targets = some ts) (hts : ts.size = b.size * rows) :
    ∃ t : TrainingBuffers α, t.targets = ts ∧
      (retarget targets).outcome e = (.ok (), e.aimed a b t) := by
  cases targets with
  | some operand =>
      cases operand with
      | error f => cases haim
      | ok ts' =>
          cases haim
          rcases exists_terms h hrate with ⟨rate, precision, hterms⟩
          rcases retarget_of_fits hc h hts hterms with ⟨t, htargets, -, -, hok⟩
          exact ⟨t, htargets, hok⟩
  | none =>
      have hkept : e.targets = some ts := haim
      have hrun : (retarget none).outcome e = (.ok (), e) := by
        rw [retarget, outcome_get_bind]
        dsimp only
        rw [hkept]
        rfl
      rcases retarget_eq_ok he hc h hrun with ⟨t, hsame, -, -, haimed⟩
      rw [haim] at haimed
      cases haimed
      exact ⟨t, rfl, hsame ▸ hrun⟩

end Retarget

/-!
## The tick
-/

section Tick

variable {c : Compiled α} {rows : Nat} {a : Arena α} {b : Backend α} {e e' : Engine α}
  {inputs targets : Option (Operand α)} {t : TrainingBuffers α} {xs : Array α} {loss : α}

theorem measure_of_steps {e₁ e₂ : Engine α} {outputs : Array α} {audience : Audience}
    (hc : e.compiled = some c) (h : e.Fits c rows a b)
    (hretarget : (retarget targets).outcome e = (.ok (), e₁))
    (hforward : (tick inputs).outcome e₁ = (.ok outputs, e₂)) (hloss : e₂.loss outputs = .ok loss)
    (hemit : (Audience.emit ⟨.loss, Scalar.toFloat loss⟩).outcome e₂.audience =
      (.ok (), audience)) :
    (measure inputs targets).outcome e = (.ok loss, { e₂ with audience }) := by
  have hreport : (onAudience (Audience.emit ⟨.loss, Scalar.toFloat loss⟩) :
      Attempt (Engine α) Unit).outcome e₂ = (.ok (), { e₂ with audience }) := by
    rw [onAudience, outcome_onPart, hemit]
  rw [measure, outcome_bind_of_ok (outcome_requireTrainable hc h _), outcome_bind_of_ok hretarget,
    outcome_bind_of_ok hforward, outcome_get_bind, hloss, outcome_of_ok_bind,
    outcome_bind_of_ok hreport, outcome_pure]

theorem trainTick_of_measure {b' : Backend α} {deltas : Option (Operand α)}
    (hmeasure : (measure inputs targets).outcome e = (.ok loss, e')) (hb : e'.backend = some b)
    (hstep : (Backend.trainTick deltas).outcome b = (.ok (), b')) :
    (trainTick inputs targets deltas).outcome e =
      (.ok loss, { e' with backend := some b', trained := true }) := by
  have htrain := outcome_onBackend hb (Backend.trainTick deltas)
  rw [hstep] at htrain
  rw [trainTick, outcome_bind_of_ok hmeasure, outcome_bind_of_ok htrain, outcome_modify_bind,
    outcome_pure]

/-- A training tick whose steps all succeed. -/
theorem trainTick_of_aimed {audience : Audience} (hc : e.compiled = some c)
    (h : e.Fits c rows a b) (hwhole : Arena.cuts c.size e.training.rank = false)
    (hretarget : (retarget targets).outcome e = (.ok (), e.aimed a b t))
    (ht : t.targets.size = b.size * rows) (hinputs : inputs.getD (.ok e.staged) = .ok xs)
    (hxs : xs.size = c.size * rows)
    (hloss : Loss.squared (a.forward c.size rows xs).output t.targets (.ok (Loss.divisor rows)) =
      .ok loss)
    (hemit : (Audience.emit ⟨.loss, Scalar.toFloat loss⟩).outcome e.audience =
      (.ok (), audience)) :
    ∃ u, (trainTick inputs targets none).outcome e = (.ok loss, u) ∧
      u.parameters = some ((a.learn c.size rows t xs).weights,
        (a.learn c.size rows t xs).biases) ∧
      u.deltas = some (a.learned c.size rows t xs) := by
  have haimed : (e.aimed a b t).Fits c rows { a with training := some t }
      (b.withTraining e.training a t) := h.withTraining ht
  have hforward := outcome_tick (e := e.aimed a b t) hc haimed hinputs hxs
  have hmeasured : Engine.loss (e.aimed a b t) (a.forward c.size rows xs).output = .ok loss := by
    show Loss.squared _ _ (.ok (Loss.divisor e.batch)) = _
    rw [h.batch_eq]
    exact hloss
  have hmeasure := measure_of_steps hc h hretarget hforward hmeasured hemit
  have hstep : (Backend.trainTick ((none : Option (Array α)).map Except.ok)).outcome
      ((b.withTraining e.training a t).withArena e.training
        (Arena.forward { a with training := some t } c.size rows xs)) = _ :=
    Backend.outcome_trainTick_of_whole rfl rfl rfl (h.backendSize.symm ▸ hwhole) nofun
  have hbatch := h.holds.batch_eq
  refine ⟨_, trainTick_of_measure hmeasure rfl hstep, ?_, ?_⟩
  · show some ((Arena.train _ b.size b.batch none t none).weights,
      (Arena.train _ b.size b.batch none t none).biases) = _
    rw [h.backendSize, hbatch]
    rfl
  · show some (Arena.deltasOf _ b.size b.batch t none) = _
    rw [h.backendSize, hbatch]
    rfl

/-- What a training tick that succeeds has gone by, and what it leaves. -/
theorem trainTick_eq_ok (he : e.Equipped) (hc : e.compiled = some c) (h : e.Fits c rows a b)
    (hwhole : Arena.cuts c.size e.training.rank = false)
    (hrun : (trainTick inputs targets none).outcome e = (.ok loss, e')) :
    ∃ (t : TrainingBuffers α) (xs : Array α), e.terms = some (t.rate, t.precision) ∧
      e.aim targets = some t.targets ∧ t.targets.size = c.size * rows ∧
      inputs.getD (.ok e.staged) = .ok xs ∧ xs.size = c.size * rows ∧
      Loss.squared (a.forward c.size rows xs).output t.targets (.ok (Loss.divisor rows)) =
        .ok loss ∧
      e'.parameters = some ((a.learn c.size rows t xs).weights,
        (a.learn c.size rows t xs).biases) ∧
      e'.deltas = some (a.learned c.size rows t xs) := by
  have hsteps := hrun
  rw [trainTick] at hsteps
  rcases outcome_bind_eq_ok hsteps with ⟨_, e₃, hmeasure, htrain⟩
  rcases outcome_bind_eq_ok htrain with ⟨_, _, -, hend⟩
  cases hend
  rw [measure, outcome_bind_of_ok (outcome_requireTrainable hc h _)] at hmeasure
  rcases outcome_bind_eq_ok hmeasure with ⟨_, e₁, hretarget, hmeasure⟩
  rcases outcome_bind_eq_ok hmeasure with ⟨outputs, e₂, hforward, hmeasure⟩
  rw [outcome_get_bind] at hmeasure
  rcases outcome_bind_eq_ok hmeasure with ⟨_, _, hloss, hmeasure⟩
  rcases outcome_bind_eq_ok hmeasure with ⟨_, _, hemit, hend⟩
  cases hend
  rcases outcome_of_eq_ok hloss with ⟨hreturned, rfl⟩
  rcases outcome_onPart_eq_ok hemit with ⟨audience, hreported, -⟩
  rcases retarget_eq_ok he hc h hretarget with ⟨t, rfl, ht, hterms, haim⟩
  have haimed : (e.aimed a b t).Fits c rows { a with training := some t }
      (b.withTraining e.training a t) := h.withTraining ht
  rcases tick_cases (e := e.aimed a b t) hc haimed inputs with
    ⟨f, hfails⟩ | ⟨xs, hinputs, hxs, hforth⟩
  · rw [hfails] at hforward
    cases hforward
  · rw [hforth] at hforward
    cases hforward
    have hsquared : Loss.squared (a.forward c.size rows xs).output t.targets
        (.ok (Loss.divisor e.batch)) = .ok loss := hreturned
    rw [h.batch_eq] at hsquared
    rcases trainTick_of_aimed hc h hwhole hretarget ht hinputs hxs hsquared hreported with
      ⟨u, hok, hparameters, hdeltas⟩
    rw [hok] at hrun
    cases hrun
    exact ⟨t, xs, hterms, haim, h.backendSize ▸ ht, hinputs, hxs, hsquared, hparameters, hdeltas⟩

end Tick

end Engine
end Plexus
