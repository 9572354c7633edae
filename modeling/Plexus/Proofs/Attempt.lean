import Mathlib.Order.Defs.Unbundled
import Plexus.Attempt

/-!
# How attempts run

An attempt that is put together from steps runs them in order up to the first that fails.
The equations below run such an attempt step by step, and the two inversion lemmas take a
run apart that is known to have succeeded.
-/

namespace Plexus
namespace Attempt

variable {σ τ β γ : Type}

/-- The state that a step leaves, whether it fails or not. -/
def after (step : Attempt σ β) (s : σ) : σ := (step.outcome s).2

/-- Whether a step succeeds. -/
def succeeds (step : Attempt σ β) (s : σ) : Bool :=
  match (step.outcome s).1 with
  | .ok _ => true
  | .error _ => false

/-- A step whose result is of no interest. -/
def void (step : Attempt σ β) : Attempt σ Unit := step >>= fun _ => pure ()

theorem after_of_outcome {step : Attempt σ β} {s t : σ} {r : Except Fault β}
    (h : step.outcome s = (r, t)) : step.after s = t := by
  rw [after, h]

theorem outcome_of_succeeds {step : Attempt σ β} {s : σ}
    (h : step.succeeds s = true) :
    ∃ b, step.outcome s = (.ok b, step.after s) := by
  unfold succeeds at h
  unfold after
  cases hrun : step.outcome s with
  | mk r t =>
      rw [hrun] at h
      cases r with
      | ok b => exact ⟨b, rfl⟩
      | error e => cases h

theorem outcome_of_not_succeeds {step : Attempt σ β} {s : σ}
    (h : step.succeeds s = false) :
    ∃ f, step.outcome s = (.error f, step.after s) := by
  unfold succeeds at h
  unfold after
  cases hrun : step.outcome s with
  | mk r t =>
      rw [hrun] at h
      cases r with
      | ok b => cases h
      | error f => exact ⟨f, rfl⟩

theorem succeeds_of_ok {step : Attempt σ β} {s : σ} {b : β} (h : (step.outcome s).1 = .ok b) :
    step.succeeds s = true := by
  rw [succeeds, h]

/-!
## Results without a state
-/

theorem bind_eq_ok {r : Except Fault β} {next : β → Except Fault γ} {c : γ}
    (h : (r >>= next) = .ok c) :
    ∃ b, r = .ok b ∧ next b = .ok c := by
  cases r with
  | ok b => exact ⟨b, rfl, h⟩
  | error e => cases h

theorem map_eq_ok {r : Except Fault β} {g : β → γ} {c : γ} (h : r.map g = .ok c) :
    ∃ b, r = .ok b ∧ c = g b := by
  cases r with
  | ok b => exact ⟨b, rfl, (Except.ok.inj h).symm⟩
  | error e => cases h

theorem guard_eq_ok {c : Prop} [Decidable c] {e : Fault} {next : Unit → Except Fault β} {b : β}
    (h : (if c then (throw e : Except Fault Unit) >>= next else next ()) = .ok b) :
    ¬c ∧ next () = .ok b := by
  by_cases hc : c
  · rw [if_pos hc] at h
    cases h
  · rw [if_neg hc] at h
    exact ⟨hc, h⟩

/-- A list that is read item by item has a result for each item, at the item's place. -/
theorem mapM_getElem? {f : β → Except Fault γ} {bs : List β} {cs : List γ} {i : Nat} {b : β}
    (h : bs.mapM f = .ok cs) (hb : bs[i]? = some b) :
    ∃ c, f b = .ok c ∧ cs[i]? = some c := by
  induction bs generalizing cs i with
  | nil => cases hb
  | cons d rest ih =>
      rw [List.mapM_cons] at h
      rcases bind_eq_ok h with ⟨c, hc, h⟩
      rcases bind_eq_ok h with ⟨ds, hds, h⟩
      cases h
      cases i with
      | zero =>
          cases hb
          exact ⟨c, hc, rfl⟩
      | succ j =>
          rw [List.getElem?_cons_succ] at hb ⊢
          exact ih hds hb

/-- What a list is read as comes from items of the list. -/
theorem exists_of_mem_mapM {f : β → Except Fault γ} {bs : List β} {cs : List γ} {c : γ}
    (h : bs.mapM f = .ok cs) (hc : c ∈ cs) : ∃ b ∈ bs, f b = .ok c := by
  induction bs generalizing cs with
  | nil =>
      cases h
      cases hc
  | cons b rest ih =>
      rw [List.mapM_cons] at h
      rcases bind_eq_ok h with ⟨d, hd, h⟩
      rcases bind_eq_ok h with ⟨ds, hds, h⟩
      cases h
      rcases List.mem_cons.mp hc with rfl | hc
      · exact ⟨b, List.mem_cons_self, hd⟩
      · rcases ih hds hc with ⟨b', hb', hread⟩
        exact ⟨b', List.mem_cons_of_mem b hb', hread⟩

theorem exists_mapM_eq_ok {f : β → Except Fault γ} {bs : List β} (h : ∀ b ∈ bs, ∃ c, f b = .ok c) :
    ∃ cs, bs.mapM f = .ok cs := by
  induction bs with
  | nil => exact ⟨[], rfl⟩
  | cons b rest ih =>
      rcases h b List.mem_cons_self with ⟨c, hc⟩
      rcases ih fun d hd => h d (List.mem_cons_of_mem b hd) with ⟨cs, hcs⟩
      rw [List.mapM_cons, hc, hcs]
      exact ⟨c :: cs, rfl⟩

theorem length_of_mapM_eq_ok {f : β → Except Fault γ} {bs : List β} {cs : List γ}
    (h : bs.mapM f = .ok cs) : cs.length = bs.length := by
  induction bs generalizing cs with
  | nil =>
      cases h
      rfl
  | cons b rest ih =>
      rw [List.mapM_cons] at h
      rcases bind_eq_ok h with ⟨c, -, h⟩
      rcases bind_eq_ok h with ⟨ds, hds, h⟩
      cases h
      rw [List.length_cons, List.length_cons, ih hds]

/-- What results say of themselves is what is known of the items that they come from. -/
theorem map_of_mapM_eq_ok {δ : Type} {f : β → Except Fault γ} {g : γ → δ} {k : β → δ} {bs : List β}
    {cs : List γ} (hf : ∀ b c, f b = .ok c → g c = k b) (h : bs.mapM f = .ok cs) :
    cs.map g = bs.map k := by
  induction bs generalizing cs with
  | nil =>
      cases h
      rfl
  | cons b rest ih =>
      rw [List.mapM_cons] at h
      rcases bind_eq_ok h with ⟨c, hc, h⟩
      rcases bind_eq_ok h with ⟨ds, hds, h⟩
      cases h
      rw [List.map_cons, List.map_cons, hf b c hc, ih hds]

theorem mapM_eq_ok {f : β → Except Fault γ} {g : β → γ} {bs : List β}
    (h : ∀ b ∈ bs, f b = .ok (g b)) :
    bs.mapM f = .ok (bs.map g) := by
  induction bs with
  | nil => rfl
  | cons b rest ih =>
      have hrest := ih fun d hd => h d (List.mem_cons_of_mem b hd)
      rw [List.mapM_cons, h b List.mem_cons_self, hrest]
      rfl

/-!
## Running a step after another
-/

theorem outcome_bind (step : Attempt σ β) (next : β → Attempt σ γ) (s : σ) :
    (step >>= next).outcome s =
      match step.outcome s with
      | (.ok b, t) => (next b).outcome t
      | (.error e, t) => (.error e, t) := by
  cases hrun : step.outcome s with
  | mk r t =>
      cases r with
      | ok b => exact outcome_bind_of_ok hrun next
      | error e => exact outcome_bind_of_error hrun next

/-- What follows a step only depends on how the step came out. -/
theorem outcome_bind_of_eq {step step' : Attempt σ β} {s s' : σ}
    (h : step.outcome s = step'.outcome s') (next : β → Attempt σ γ) :
    (step >>= next).outcome s = (step' >>= next).outcome s' := by
  rw [outcome_bind, outcome_bind, h]

/-- Of what follows a step, only that counts which follows its success. -/
theorem outcome_bind_congr {step : Attempt σ β} {next next' : β → Attempt σ γ} {s : σ}
    (h : ∀ b t, step.outcome s = (.ok b, t) → (next b).outcome t = (next' b).outcome t) :
    (step >>= next).outcome s = (step >>= next').outcome s := by
  rw [outcome_bind, outcome_bind]
  cases hrun : step.outcome s with
  | mk r t =>
      cases r with
      | ok b => exact h b t hrun
      | error e => rfl

theorem outcome_bind_eq_ok {step : Attempt σ β} {next : β → Attempt σ γ} {s u : σ} {c : γ}
    (h : (step >>= next).outcome s = (.ok c, u)) :
    ∃ b t, step.outcome s = (.ok b, t) ∧ (next b).outcome t = (.ok c, u) := by
  rw [outcome_bind] at h
  cases hrun : step.outcome s with
  | mk r t =>
      rw [hrun] at h
      cases r with
      | ok b => exact ⟨b, t, rfl, h⟩
      | error e => cases h

theorem outcome_bind_eq_error {step : Attempt σ β} {next : β → Attempt σ γ} {s u : σ} {f : Fault}
    (h : (step >>= next).outcome s = (.error f, u)) :
    step.outcome s = (.error f, u) ∨
      ∃ b t, step.outcome s = (.ok b, t) ∧ (next b).outcome t = (.error f, u) := by
  rw [outcome_bind] at h
  cases hrun : step.outcome s with
  | mk r t =>
      rw [hrun] at h
      cases r with
      | ok b => exact Or.inr ⟨b, t, rfl, h⟩
      | error e =>
          cases h
          exact Or.inl rfl

theorem outcome_of_eq_ok {r : Except Fault β} {s t : σ} {b : β}
    (h : (of r).outcome s = (.ok b, t)) :
    r = .ok b ∧ s = t :=
  ⟨congrArg Prod.fst h, congrArg Prod.snd h⟩

theorem outcome_onPart_eq_ok {get : σ → τ} {set : τ → σ → σ} {step : Attempt τ β} {s t : σ}
    {b : β} (h : (onPart get set step).outcome s = (.ok b, t)) :
    ∃ u, step.outcome (get s) = (.ok b, u) ∧ t = set u s := by
  rw [outcome_onPart, Prod.mk.injEq] at h
  rcases h with ⟨hresult, hstate⟩
  exact ⟨_, Prod.ext hresult rfl, hstate.symm⟩

@[simp] theorem outcome_pure_bind (b : β) (next : β → Attempt σ γ) (s : σ) :
    (pure b >>= next).outcome s = (next b).outcome s :=
  outcome_bind_of_ok (outcome_pure b s) next

@[simp] theorem outcome_throw_bind (e : Fault) (next : β → Attempt σ γ) (s : σ) :
    (throw e >>= next).outcome s = (.error e, s) :=
  outcome_bind_of_error (outcome_throw e s) next

@[simp] theorem outcome_get_bind (next : σ → Attempt σ γ) (s : σ) :
    (get >>= next).outcome s = (next s).outcome s :=
  outcome_bind_of_ok (outcome_get s) next

@[simp] theorem outcome_set_bind (t : σ) (next : PUnit → Attempt σ γ) (s : σ) :
    (set t >>= next).outcome s = (next ⟨⟩).outcome t :=
  outcome_bind_of_ok (outcome_set s t) next

@[simp] theorem outcome_modify_bind (f : σ → σ) (next : PUnit → Attempt σ γ) (s : σ) :
    (modify f >>= next).outcome s = (next ⟨⟩).outcome (f s) :=
  outcome_bind_of_ok (outcome_modify f s) next

@[simp] theorem outcome_of_ok_bind (b : β) (next : β → Attempt σ γ) (s : σ) :
    (of (.ok b) >>= next).outcome s = (next b).outcome s :=
  outcome_bind_of_ok (outcome_of (.ok b) s) next

@[simp] theorem outcome_of_error_bind (e : Fault) (next : β → Attempt σ γ) (s : σ) :
    (of (.error e) >>= next).outcome s = (.error e, s) :=
  outcome_bind_of_error (outcome_of (.error e) s) next

theorem outcome_ite (c : Prop) [Decidable c] (a b : Attempt σ β) (s : σ) :
    (if c then a else b).outcome s = if c then a.outcome s else b.outcome s := by
  split <;> rfl

/-- After a fault the cleanup runs, and only a fault of its own takes the place of the first. -/
theorem outcome_onFault_of_fault {step : Attempt σ β} {s t : σ} {e : Fault}
    (h : step.outcome s = (.error e, t)) (cleanup : Attempt σ Unit) :
    (onFault step cleanup).outcome s =
      match cleanup.outcome t with
      | (.ok (), u) => (.error e, u)
      | (.error e', u) => (.error e', u) := by
  have hrun : step s = (.error e, t) := h
  show onFault step cleanup s = _
  rw [onFault, hrun]
  rfl

theorem outcome_onFault_of_error {step : Attempt σ β} {s t : σ} {e : Fault}
    (h : step.outcome s = (.error e, t)) (cleanup : Attempt σ Unit) :
    ∃ e', (onFault step cleanup).outcome s = (.error e', cleanup.after t) := by
  rw [outcome_onFault_of_fault h, after]
  cases hclean : cleanup.outcome t with
  | mk r u =>
      cases r with
      | ok _ => exact ⟨e, rfl⟩
      | error e' => exact ⟨e', rfl⟩

theorem outcome_onFault_eq_ok {step : Attempt σ β} {cleanup : Attempt σ Unit} {s t : σ} {b : β}
    (h : (onFault step cleanup).outcome s = (.ok b, t)) :
    step.outcome s = (.ok b, t) := by
  cases hrun : step.outcome s with
  | mk r u =>
      cases r with
      | ok c =>
          rw [outcome_onFault_of_ok hrun] at h
          exact h
      | error e =>
          rcases outcome_onFault_of_error hrun cleanup with ⟨e', hfault⟩
          rw [hfault] at h
          cases h

theorem outcome_onFault_of_cleanup {step : Attempt σ β} {cleanup : Attempt σ Unit} {s t : σ}
    {e : Fault} (h : step.outcome s = (.error e, t)) (hclean : cleanup.succeeds t = true) :
    (onFault step cleanup).outcome s = (.error e, cleanup.after t) := by
  rcases outcome_of_succeeds hclean with ⟨_, hdone⟩
  rw [outcome_onFault_of_fault h, hdone]

theorem outcome_bind_pure (step : Attempt σ β) (g : β → γ) (s : σ) :
    (step >>= fun b => pure (g b)).outcome s = ((step.outcome s).1.map g, step.after s) := by
  rw [outcome_bind, after]
  cases step.outcome s with
  | mk r t => cases r <;> rfl

theorem after_bind_pure (step : Attempt σ β) (g : β → γ) (s : σ) :
    (step >>= fun b => pure (g b)).after s = step.after s :=
  after_of_outcome (outcome_bind_pure step g s)

theorem outcome_void (step : Attempt σ β) (s : σ) :
    (void step).outcome s = ((step.outcome s).1.map fun _ => (), step.after s) :=
  outcome_bind_pure step (fun _ => ()) s

theorem outcome_void_eq_ok {step : Attempt σ β} {s t : σ}
    (h : (void step).outcome s = (.ok (), t)) :
    ∃ b, step.outcome s = (.ok b, t) := by
  rcases outcome_bind_eq_ok h with ⟨b, u, hstep, h⟩
  cases h
  exact ⟨b, hstep⟩

theorem after_void (step : Attempt σ β) (s : σ) : (void step).after s = step.after s :=
  after_bind_pure step (fun _ => ()) s

theorem succeeds_void (step : Attempt σ β) (s : σ) : (void step).succeeds s = step.succeeds s := by
  rw [succeeds, succeeds, outcome_void]
  cases (step.outcome s).1 <;> rfl

theorem not_succeeds_of_error {step : Attempt σ β} {s t : σ} {e : Fault}
    (h : step.outcome s = (.error e, t)) : step.succeeds s = false := by
  rw [succeeds, h]

/-- What two steps keep, whether they fail or not, they keep together. -/
theorem bind_induction {step : Attempt σ β} {next : β → Attempt σ γ} {I : σ → Prop} {s : σ}
    (hstep : I (step.after s)) (hnext : ∀ b t, I t → I ((next b).after t)) :
    I ((step >>= next).after s) := by
  unfold after at hstep ⊢
  rw [outcome_bind]
  cases hrun : step.outcome s with
  | mk r t =>
      rw [hrun] at hstep
      cases r with
      | ok b => exact hnext b t hstep
      | error _ => exact hstep

/-- What a step keeps, and a cleanup after it, is kept even if the step fails. -/
theorem onFault_induction {step : Attempt σ β} {cleanup : Attempt σ Unit} {I : σ → Prop} {s : σ}
    (hstep : I (step.after s)) (hcleanup : ∀ t, I t → I (cleanup.after t)) :
    I ((onFault step cleanup).after s) := by
  cases hrun : step.outcome s with
  | mk r t =>
      rw [after_of_outcome hrun] at hstep
      cases r with
      | ok b =>
          rw [after_of_outcome (outcome_onFault_of_ok hrun cleanup)]
          exact hstep
      | error e =>
          rcases outcome_onFault_of_error hrun cleanup with ⟨e', hfault⟩
          rw [after_of_outcome hfault]
          exact hcleanup t hstep

/-!
## Running a step for each item of a list
-/

@[simp] theorem outcome_forM_nil (f : β → Attempt σ PUnit) (s : σ) :
    (([] : List β).forM f).outcome s = (.ok ⟨⟩, s) := rfl

@[simp] theorem outcome_forM_cons (f : β → Attempt σ PUnit) (b : β) (bs : List β) (s : σ) :
    ((b :: bs).forM f).outcome s = (f b >>= fun _ => bs.forM f).outcome s := rfl

/-- Steps on a part of the state, one after the other, are one step on that part. -/
theorem outcome_forM_onPart {get : σ → τ} {set : τ → σ → σ} (hget : ∀ t s, get (set t s) = t)
    (hset : ∀ t u s, set t (set u s) = set t s) (hself : ∀ s, set (get s) s = s)
    (f : β → Attempt τ PUnit) (bs : List β) (s : σ) :
    (bs.forM fun b => onPart get set (f b)).outcome s =
      (onPart get set (bs.forM f)).outcome s := by
  induction bs generalizing s with
  | nil =>
      rw [outcome_onPart, outcome_forM_nil, outcome_forM_nil, hself]
  | cons b rest ih =>
      rw [outcome_onPart, outcome_forM_cons, outcome_forM_cons, outcome_bind, outcome_bind,
        outcome_onPart]
      cases hrun : (f b).outcome (get s) with
      | mk r t =>
          cases r with
          | error e => rfl
          | ok _ =>
              dsimp only
              rw [ih, outcome_onPart, hget, hset]

/-- What each step keeps, given the items before it, holds after all of them. -/
theorem outcome_forM_of_step {f : β → Attempt σ PUnit} {l : List β}
    {I : List β → List β → σ → Prop} {s : σ}
    (hstep : ∀ done b rest s, b ∈ l → I done (b :: rest) s →
      ∃ t, (f b).outcome s = (.ok ⟨⟩, t) ∧ I (done ++ [b]) rest t)
    (h : I [] l s) :
    ∃ t, (l.forM f).outcome s = (.ok ⟨⟩, t) ∧ I l [] t := by
  have hrun : ∀ rest done s, (∀ b ∈ rest, b ∈ l) → I done rest s →
      ∃ t, (rest.forM f).outcome s = (.ok ⟨⟩, t) ∧ I (done ++ rest) [] t := by
    intro rest
    induction rest with
    | nil =>
        intro done s _ hs
        refine ⟨s, outcome_forM_nil f s, ?_⟩
        rw [List.append_nil]
        exact hs
    | cons b rest ih =>
        intro done s hmem hs
        rcases hstep done b rest s (hmem b List.mem_cons_self) hs with ⟨t, ht, hI⟩
        rcases ih (done ++ [b]) t (fun d hd => hmem d (List.mem_cons_of_mem b hd)) hI with
          ⟨u, hu, hI'⟩
        refine ⟨u, ?_, ?_⟩
        · rw [outcome_forM_cons, outcome_bind_of_ok ht]
          exact hu
        · rw [List.append_assoc] at hI'
          exact hI'
  exact hrun l [] s (fun _ hb => hb) h

/-- What each step keeps, whether it fails or not, holds after all of them. -/
theorem forM_induction {f : β → Attempt σ PUnit} {bs : List β} {I : σ → Prop} {s : σ}
    (hstep : ∀ b ∈ bs, ∀ s, I s → I ((f b).after s)) (h : I s) :
    I ((bs.forM f).after s) := by
  induction bs generalizing s with
  | nil => exact h
  | cons b rest ih =>
      have hrest : ∀ t, I t → I ((rest.forM f).after t) :=
        fun t ht => ih (fun d hd => hstep d (List.mem_cons_of_mem b hd)) ht
      have hrun : ((b :: rest).forM f).after s = (f b >>= fun _ => rest.forM f).after s := rfl
      rw [hrun]
      exact bind_induction (hstep b List.mem_cons_self s h) fun _ t ht => hrest t ht

/-!
## Steps that respect a relation

Where a relation between states is reflexive and transitive, steps that respect it can be put
together.  The relation may say what stays the same, or that a property is kept.
-/

/-- A step that leaves a state in some relation to the one before it, even if it fails. -/
def Respects (R : σ → σ → Prop) (step : Attempt σ β) : Prop := ∀ s, R s (step.after s)

/-- A state keeps a property of another one, if that has it. -/
def Kept (I : σ → Prop) (s t : σ) : Prop := I s → I t

instance (I : σ → Prop) : IsPreorder σ (Kept I) where
  refl _ hs := hs
  trans _ _ _ h h' hs := h' (h hs)

/-- Two states that look the same through a view of them. -/
def Fixes (view : σ → τ) (s t : σ) : Prop := view t = view s

instance (view : σ → τ) : IsPreorder σ (Fixes view) where
  refl _ := rfl
  trans _ _ _ h h' := h'.trans h

section Respects

variable {R : σ → σ → Prop} [IsPreorder σ R]

theorem Respects.bind {step : Attempt σ β} {next : β → Attempt σ γ} (hstep : Respects R step)
    (hnext : ∀ b, Respects R (next b)) :
    Respects R (step >>= next) :=
  fun s => bind_induction (hstep s) fun b t ht => IsTrans.trans _ _ _ ht (hnext b t)

theorem Respects.onFault {step : Attempt σ β} {cleanup : Attempt σ Unit}
    (hstep : Respects R step) (hcleanup : Respects R cleanup) :
    Respects R (onFault step cleanup) :=
  fun s => onFault_induction (hstep s) fun t ht => IsTrans.trans _ _ _ ht (hcleanup t)

theorem Respects.forM {f : β → Attempt σ PUnit} {bs : List β} (h : ∀ b ∈ bs, Respects R (f b)) :
    Respects R (bs.forM f) :=
  fun s => forM_induction (fun b hb t ht => IsTrans.trans _ _ _ ht (h b hb t)) (refl s)

omit [IsPreorder σ R] in
theorem Respects.bind_pure {step : Attempt σ β} (h : Respects R step) (g : β → γ) :
    Respects R (step >>= fun b => pure (g b)) := by
  intro s
  rw [after_bind_pure]
  exact h s

omit [IsPreorder σ R] in
theorem Respects.void {step : Attempt σ β} (h : Respects R step) : Respects R (void step) :=
  h.bind_pure fun _ => ()

theorem respects_of (r : Except Fault β) : Respects R (of r : Attempt σ β) := fun s => refl s

theorem respects_pure (b : β) : Respects R (pure b : Attempt σ β) := fun s => refl s

theorem respects_throw (f : Fault) : Respects R (throw f : Attempt σ β) := fun s => refl s

omit [IsPreorder σ R] in
/-- What is done with the state that was read may depend on that state. -/
theorem respects_get_bind {next : σ → Attempt σ β} (h : ∀ s, R s ((next s).after s)) :
    Respects R (get >>= next) := by
  intro s
  rw [after, outcome_get_bind]
  exact h s

omit [IsPreorder σ R] in
theorem respects_modify {f : σ → σ} (h : ∀ s, R s (f s)) :
    Respects R (modify f : Attempt σ PUnit) :=
  fun s => h s

theorem respects_guard {c : Prop} [Decidable c] {f : Fault} {next : Unit → Attempt σ β}
    (h : Respects R (next ())) :
    Respects R (if c then (throw f : Attempt σ Unit) >>= next else next ()) := by
  split
  · exact (respects_throw f).bind fun _ => h
  · exact h

end Respects

instance : IsPreorder σ Eq where
  refl _ := rfl
  trans _ _ _ h h' := h.trans h'

/-- What begins with a check fails there and changes nothing, or goes on from the same state. -/
theorem Respects.check {step : Attempt σ β} (h : Respects Eq step) (next : β → Attempt σ γ)
    (s : σ) :
    (∃ f, (step >>= next).outcome s = (.error f, s)) ∨
      ∃ b, step.outcome s = (.ok b, s) ∧ (step >>= next).outcome s = (next b).outcome s := by
  have hstate := h s
  cases hrun : step.outcome s with
  | mk r t =>
      rw [after_of_outcome hrun] at hstate
      rw [← hstate] at hrun
      cases r with
      | error f => exact Or.inl ⟨f, outcome_bind_of_error hrun next⟩
      | ok b => exact Or.inr ⟨b, by rw [hstate], outcome_bind_of_ok hrun next⟩

/-- What begins with a check and fails has failed there, or in what comes after it. -/
theorem Respects.check_eq_error {step : Attempt σ β} {next : β → Attempt σ γ} {s t : σ}
    {f : Fault} (h : Respects Eq step) (hrun : (step >>= next).outcome s = (.error f, t)) :
    t = s ∨ ∃ b, step.outcome s = (.ok b, s) ∧ (next b).outcome s = (.error f, t) := by
  rcases h.check next s with ⟨g, hfails⟩ | ⟨b, hstep, hnext⟩
  · rw [hfails, Prod.mk.injEq] at hrun
    exact Or.inl hrun.2.symm
  · rw [hnext] at hrun
    exact Or.inr ⟨b, hstep, hrun⟩

/-- What begins with a check leaves the state as it was, or what comes after the check leaves. -/
theorem check_induction {step : Attempt σ β} {next : β → Attempt σ γ} {I : σ → Prop} {s : σ}
    (h : Respects Eq step) (hs : I s)
    (hnext : ∀ b, step.outcome s = (.ok b, s) → I ((next b).after s)) :
    I ((step >>= next).after s) := by
  rcases h.check next s with ⟨f, hfails⟩ | ⟨b, hstep, hrun⟩
  · rw [after_of_outcome hfails]
    exact hs
  · rw [after_of_outcome hrun]
    exact hnext b hstep

/-- A step that leaves the state as it was if it fails. -/
def Atomic (step : Attempt σ β) : Prop :=
  ∀ s t f, step.outcome s = (.error f, t) → t = s

theorem atomic_of (r : Except Fault β) : Atomic (of r : Attempt σ β) := by
  intro s t f h
  rw [outcome_of, Prod.mk.injEq] at h
  exact h.2.symm

/-- What follows a check may do as much as it likes, as long as it does not fail after that. -/
theorem Respects.atomic {step : Attempt σ β} {next : β → Attempt σ γ} (h : Respects Eq step)
    (hnext : ∀ b, Atomic (next b)) :
    Atomic (step >>= next) := by
  intro s t f hrun
  rcases h.check_eq_error hrun with rfl | ⟨b, -, hrun⟩
  · rfl
  · exact hnext b s t f hrun

theorem atomic_get_bind {next : σ → Attempt σ β}
    (h : ∀ s t f, (next s).outcome s = (.error f, t) → t = s) :
    Atomic (get >>= next) := by
  intro s t f hrun
  rw [outcome_get_bind] at hrun
  exact h s t f hrun

/-- What only hands on the result of a step fails as the step does. -/
theorem outcome_bind_pure_eq_error {step : Attempt σ β} {g : β → γ} {s t : σ} {f : Fault}
    (h : (step >>= fun b => pure (g b)).outcome s = (.error f, t)) :
    step.outcome s = (.error f, t) := by
  rcases outcome_bind_eq_error h with hstep | ⟨b, u, -, h⟩
  · exact hstep
  · cases h

theorem Atomic.bind_pure {step : Attempt σ β} (h : Atomic step) (g : β → γ) :
    Atomic (step >>= fun b => pure (g b)) :=
  fun s t f hrun => h s t f (outcome_bind_pure_eq_error hrun)

/-!
## Faults that steps do not end in
-/

/-- The kind of fault that a step ends in, if it fails. -/
def family? (step : Attempt σ β) (s : σ) : Option Fault.Family :=
  match (step.outcome s).1 with
  | .ok _ => none
  | .error f => some f.family

theorem outcome_of_family? {step : Attempt σ β} {s : σ} {k : Fault.Family}
    (h : step.family? s = some k) :
    ∃ f, f.family = k ∧ step.outcome s = (.error f, step.after s) := by
  unfold family? at h
  unfold after
  cases hrun : step.outcome s with
  | mk r t =>
      rw [hrun] at h
      cases r with
      | ok b => cases h
      | error f => exact ⟨f, Option.some.inj h, rfl⟩

/-- A result that is no fault of some kind. -/
def Avoids (k : Fault.Family) (r : Except Fault β) : Prop := ∀ f, r = .error f → f.family ≠ k

/-- A step that never ends in a fault of some kind. -/
def Spares (k : Fault.Family) (step : Attempt σ β) : Prop := ∀ s, Avoids k (step.outcome s).1

variable {k : Fault.Family}

theorem avoids_ok (b : β) : Avoids k (.ok b : Except Fault β) := by
  intro f hf
  cases hf

theorem avoids_error {f : Fault} (h : f.family ≠ k) : Avoids k (.error f : Except Fault β) := by
  intro g hg
  cases hg
  exact h

theorem Avoids.bind {r : Except Fault β} {next : β → Except Fault γ} (h : Avoids k r)
    (hnext : ∀ b, Avoids k (next b)) :
    Avoids k (r >>= next) := by
  cases r with
  | ok b => exact hnext b
  | error f => exact avoids_error (h f rfl)

theorem Avoids.map {r : Except Fault β} (h : Avoids k r) (g : β → γ) : Avoids k (r.map g) := by
  cases r with
  | ok b => exact avoids_ok (g b)
  | error f => exact avoids_error (h f rfl)

theorem avoids_mapM {f : β → Except Fault γ} (h : ∀ b, Avoids k (f b)) (bs : List β) :
    Avoids k (bs.mapM f) := by
  induction bs with
  | nil => exact avoids_ok []
  | cons b rest ih =>
      rw [List.mapM_cons]
      exact (h b).bind fun c => ih.bind fun cs => avoids_ok (c :: cs)

theorem Spares.bind {step : Attempt σ β} {next : β → Attempt σ γ} (h : Spares k step)
    (hnext : ∀ b, Spares k (next b)) :
    Spares k (step >>= next) := by
  intro s
  have hstep := h s
  rw [outcome_bind]
  cases hrun : step.outcome s with
  | mk r t =>
      rw [hrun] at hstep
      cases r with
      | ok b => exact hnext b t
      | error f => exact avoids_error (hstep f rfl)

theorem spares_of {r : Except Fault β} (h : Avoids k r) : Spares k (of r : Attempt σ β) :=
  fun _ => h

theorem spares_pure (b : β) : Spares k (pure b : Attempt σ β) := fun _ => avoids_ok b

theorem spares_modify (g : σ → σ) : Spares k (modify g : Attempt σ PUnit) :=
  fun _ => avoids_ok _

theorem spares_get_bind {next : σ → Attempt σ β}
    (h : ∀ s, Avoids k ((next s).outcome s).1) :
    Spares k (get >>= next) := by
  intro s
  rw [outcome_get_bind]
  exact h s

theorem spares_onPart {get : σ → τ} {set : τ → σ → σ} {step : Attempt τ β} (h : Spares k step) :
    Spares k (onPart get set step) := by
  intro s
  rw [outcome_onPart]
  exact h (get s)

theorem spares_forM {f : β → Attempt σ PUnit} (h : ∀ b, Spares k (f b)) (bs : List β) :
    Spares k (bs.forM f) := by
  induction bs with
  | nil => exact spares_pure PUnit.unit
  | cons b rest ih => exact fun s => (h b).bind (fun _ => ih) s

end Attempt
end Plexus
