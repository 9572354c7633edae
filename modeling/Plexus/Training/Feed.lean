import Plexus.Training.Trainer

/-!
# Training on a feed

A feed hands out samples one after the other, each after some time, or says that none is
there yet.  A trainer that runs on a feed takes what it is handed and looks after the
samples that wait, until it is stopped or has run enough ticks.  Taking a sample may train the
network, so that time passes before the trainer looks at those that wait.
-/

namespace Plexus

/-- A sample that a feed hands out, and how long a trainer is busy with it. -/
structure Offer (α τ : Type) where
  inputs : Operand α
  targets : Operand α
  busy : τ

/-- What a feed hands out.  A feed that has nothing more to hand out stops the trainer. -/
inductive Feed (α τ : Type) where
  | last (elapsed : τ)
  | next (elapsed : τ) (offer : Option (Offer α τ)) (rest : Feed α τ)

namespace Feed

/-- The feed of some samples, each after the same time, that keep no trainer busy. -/
def ofList {α τ : Type} [Moment τ] (elapsed : τ) :
    List (Option (Operand α × Operand α)) → Feed α τ
  | [] => .last elapsed
  | sample :: rest =>
      .next elapsed (sample.map fun s => ⟨s.1, s.2, Moment.start⟩) (ofList elapsed rest)

end Feed

namespace Trainer

variable {α τ : Type} [Scalar α] [Moment τ]

/-- Whether the ticks since a count have reached a limit. -/
def limitReached (limit : Option Number) (before now : Nat) : Bool :=
  match limit with
  | none => false
  | some n => n.atMost (.whole ((now : Int) - before))

/-- Takes a sample, if there is one, and is busy with it for a while. -/
def accept : Option (Offer α τ) → Attempt (Trainer α τ) Unit
  | none => pure ()
  | some offer => do
      let _ ← addSample offer.inputs offer.targets
      elapse offer.busy

/-- Takes deliveries while the trainer is running; `before` is its tick count at the start. -/
def consume (limit : Option Number) (before : Nat) : Feed α τ → Attempt (Trainer α τ) Unit
  | .last elapsed => do
      let l := (← get).loop
      if l.running && !limitReached limit before l.ticks then
        elapse elapsed
        stop
        let _ ← poll
  | .next elapsed offer rest => do
      let l := (← get).loop
      if l.running && !limitReached limit before l.ticks then
        elapse elapsed
        accept offer
        let _ ← poll
        consume limit before rest

/-- Runs on a feed and returns the number of ticks it took; a trainer that fails stops too. -/
def run (limit : Option Number) (feed : Feed α τ) : Attempt (Trainer α τ) Nat := do
  let before := (← get).loop.ticks
  updateLoop fun l => { l with running := true }
  Attempt.onFault (consume limit before feed) stop
  stop
  return (← get).loop.ticks - before

end Trainer
end Plexus
