import Plexus.Fault

/-!
# Attempts

An attempt is a step on a state that may fail.  Unlike a computation that is undone when
it fails, an attempt keeps what it had done: the state comes back with a fault as well as
with a result.  The lemmas say what the state is after each way to combine attempts.
-/

namespace Plexus

/--
A step that may fail.  What it did to the state before it failed stays done, so the
state comes back with a fault as well as with a result.
-/
abbrev Attempt (σ β : Type) := ExceptT Fault (StateM σ) β

namespace Attempt

variable {σ τ β : Type}

/-- Runs a step: its outcome and the state it leaves. -/
def outcome (step : Attempt σ β) (s : σ) : Except Fault β × σ := step s

/-- A result that does not depend on the state. -/
def of (r : Except Fault β) : Attempt σ β := fun s => (r, s)

/-- A step on a part of the state. -/
def onPart (get : σ → τ) (set : τ → σ → σ) (step : Attempt τ β) : Attempt σ β := fun s =>
  let (r, t) := step (get s)
  (r, set t s)

/-- Runs `step`; if it fails, `cleanup` follows and the fault is raised again. -/
def onFault (step : Attempt σ β) (cleanup : Attempt σ Unit) : Attempt σ β := fun s =>
  match step s with
  | (.ok b, s') => (.ok b, s')
  | (.error e, s') =>
      match cleanup s' with
      | (.ok (), s'') => (.error e, s'')
      | (.error e', s'') => (.error e', s'')

variable {γ : Type}

@[simp] theorem outcome_pure (b : β) (s : σ) : (pure b : Attempt σ β).outcome s = (.ok b, s) := rfl

@[simp] theorem outcome_throw (e : Fault) (s : σ) :
    (throw e : Attempt σ β).outcome s = (.error e, s) := rfl

@[simp] theorem outcome_of (r : Except Fault β) (s : σ) :
    (of r : Attempt σ β).outcome s = (r, s) := rfl

@[simp] theorem outcome_get (s : σ) : (get : Attempt σ σ).outcome s = (.ok s, s) := rfl

@[simp] theorem outcome_set (s t : σ) : (set t : Attempt σ PUnit).outcome s = (.ok ⟨⟩, t) := rfl

@[simp] theorem outcome_modify (f : σ → σ) (s : σ) :
    (modify f : Attempt σ PUnit).outcome s = (.ok ⟨⟩, f s) := rfl

/-- A step that succeeds hands its result and its state on. -/
theorem outcome_bind_of_ok {step : Attempt σ β} {s t : σ} {b : β} (h : step.outcome s = (.ok b, t))
    (next : β → Attempt σ γ) : (step >>= next).outcome s = (next b).outcome t := by
  have hrun : step s = (.ok b, t) := h
  show (step >>= next) s = next b t
  simp only [bind, ExceptT.bind, ExceptT.mk, StateT.bind, ExceptT.bindCont, hrun]

/-- A step that fails ends the attempt, and the state stays as it left it. -/
theorem outcome_bind_of_error {step : Attempt σ β} {s t : σ} {e : Fault}
    (h : step.outcome s = (.error e, t)) (next : β → Attempt σ γ) :
    (step >>= next).outcome s = (.error e, t) := by
  have hrun : step s = (.error e, t) := h
  show (step >>= next) s = (.error e, t)
  simp only [bind, ExceptT.bind, ExceptT.mk, StateT.bind, ExceptT.bindCont, hrun]
  rfl

theorem outcome_onPart (get : σ → τ) (set : τ → σ → σ) (step : Attempt τ β) (s : σ) :
    (onPart get set step).outcome s =
      ((step.outcome (get s)).1, set (step.outcome (get s)).2 s) := rfl

theorem outcome_onFault_of_ok {step : Attempt σ β} {s t : σ} {b : β}
    (h : step.outcome s = (.ok b, t)) (cleanup : Attempt σ Unit) :
    (onFault step cleanup).outcome s = (.ok b, t) := by
  have hrun : step s = (.ok b, t) := h
  show onFault step cleanup s = (.ok b, t)
  rw [onFault, hrun]

end Attempt
end Plexus
