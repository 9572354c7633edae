import Plexus.Decimal.Number

/-!
# Times

The training loop only asks of time that moments can be told apart by a duration, and
that a duration can be compared with a number of milliseconds.
-/

namespace Plexus

/-- Moments and durations, counted in seconds from a common start. -/
class Moment (τ : Type) where
  start : τ
  add : τ → τ → τ
  sub : τ → τ → τ
  /-- Whether a duration is at least a number of milliseconds. -/
  atLeast : τ → Number → Bool

instance : Moment Float where
  start := 0.0
  add := (· + ·)
  sub := (· - ·)
  atLeast d ms := ms.atMost (.real (d * 1000.0))

end Plexus
