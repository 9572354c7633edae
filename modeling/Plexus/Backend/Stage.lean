/-!
# Stages of a backend

A backend moves through four stages, in this order, and an operation names the least
stage that it needs.
-/

namespace Plexus

/-- How far a backend has been set up. -/
inductive Stage where
  | uninitialized
  | ready
  | compiled
  | trainable
deriving DecidableEq, Inhabited

namespace Stage

/-- The position of a stage in the order. -/
def rank : Stage → Nat
  | .uninitialized => 0
  | .ready => 1
  | .compiled => 2
  | .trainable => 3

instance : LE Stage := ⟨fun a b => a.rank ≤ b.rank⟩

instance : LT Stage := ⟨fun a b => a.rank < b.rank⟩

instance (a b : Stage) : Decidable (a ≤ b) := inferInstanceAs (Decidable (a.rank ≤ b.rank))

instance (a b : Stage) : Decidable (a < b) := inferInstanceAs (Decidable (a.rank < b.rank))

theorem le_def {a b : Stage} : a ≤ b ↔ a.rank ≤ b.rank := Iff.rfl

theorem lt_def {a b : Stage} : a < b ↔ a.rank < b.rank := Iff.rfl

theorem rank_injective {a b : Stage} (h : a.rank = b.rank) : a = b := by
  cases a <;> cases b <;> simp_all [rank]

/-- The name of a stage in messages. -/
def name : Stage → String
  | .uninitialized => "UNINITIALIZED"
  | .ready => "READY"
  | .compiled => "COMPILED"
  | .trainable => "TRAINABLE"

end Stage
end Plexus
