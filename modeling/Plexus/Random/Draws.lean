/-!
# Sources of random draws

What the library needs of randomness: reals from the unit interval and whole numbers up
to a bound.  Everything random takes the source as a parameter.
-/

namespace Plexus

/-- A source of random draws: a draw gives a result and the source for the next draw. -/
class Draws (σ : Type) where
  /-- A real from zero up to, but without, one. -/
  unit : σ → Float × σ
  /-- A whole number from zero up to and with a bound. -/
  upTo : Nat → σ → Nat × σ

namespace Draws

variable {σ : Type} [Draws σ]

/-- Swaps two items of an array, as far as they exist. -/
def swap (xs : Array Nat) (i j : Nat) : Array Nat :=
  match xs[i]?, xs[j]? with
  | some x, some y => (xs.setIfInBounds i y).setIfInBounds j x
  | _, _ => xs

/-- Swaps each of the items `i`, `i - 1`, ..., `1` with a random one up to it. -/
def shuffleFrom : Nat → Array Nat → σ → Array Nat × σ
  | 0, xs, s => (xs, s)
  | i + 1, xs, s =>
      let (j, s) := upTo (i + 1) s
      shuffleFrom i (swap xs (i + 1) j) s

/-- A random order of the numbers below `n`. -/
def permutation (n : Nat) (s : σ) : List Nat × σ :=
  let (xs, s) := shuffleFrom (n - 1) (Array.range n) s
  (xs.toList, s)

/-- A real between two bounds. -/
def between (low high : Float) (s : σ) : Float × σ :=
  let (u, s) := unit s
  (low + (high - low) * u, s)

end Draws
end Plexus
