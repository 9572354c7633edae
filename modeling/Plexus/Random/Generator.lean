import Plexus.Random.Draws
import Plexus.Random.Seed

/-!
# A seeded generator

A permuted congruential generator with 128 bits of state, seeded by hashing the words of
a seed into a pool.  The same seed always gives the same draws.
-/

namespace Plexus

/-- The pool that the words of a seed are hashed into, and the running hash constant. -/
structure SeedPool where
  words : Array UInt32
  constant : UInt32

namespace SeedPool

/-- Hashes a word; the constant changes with every word. -/
def hash (value : UInt32) (p : SeedPool) : UInt32 × SeedPool :=
  let v := value ^^^ p.constant
  let constant := p.constant * 0x931e8875
  let v := v * constant
  (v ^^^ (v >>> 16), { p with constant })

/-- Mixes a hashed word into another one. -/
def mix (x y : UInt32) : UInt32 :=
  let r := 0xca01f9dd * x - 0x4973f715 * y
  r ^^^ (r >>> 16)

/-- The word at a place of the pool. -/
def word (p : SeedPool) (i : Nat) : UInt32 := p.words[i]?.getD 0

/-- Hashes a word and mixes it into place `i` of the pool. -/
def absorb (value : UInt32) (i : Nat) (p : SeedPool) : SeedPool :=
  let (h, p) := p.hash value
  { p with words := p.words.setIfInBounds i (mix (p.word i) h) }

/-- The places of the pool. -/
def places : List Nat := [0, 1, 2, 3]

/-- Fills the pool with the first words of a seed. -/
def fill (entropy : List UInt32) : SeedPool :=
  places.foldl
    (fun p i =>
      let (h, p) := p.hash (entropy[i]?.getD 0)
      { p with words := p.words.push h })
    ⟨#[], 0x43b0d7e5⟩

/-- The pool of a seed: filled, stirred, and with any further words absorbed at every place. -/
def ofEntropy (entropy : List UInt32) : SeedPool :=
  let filled := fill entropy
  let stirred := places.foldl
    (fun p i => places.foldl (fun p j => if i = j then p else p.absorb (p.word i) j) p) filled
  (entropy.drop 4).foldl (fun p e => places.foldl (fun p j => p.absorb e j) p) stirred

/-- The eight words that a pool gives out. -/
def output (p : SeedPool) : List UInt32 :=
  ((List.range 8).foldl
    (fun (acc : List UInt32 × UInt32) i =>
      let v := p.word (i % 4) ^^^ acc.2
      let constant := acc.2 * 0x58f38ded
      let v := v * constant
      (acc.1 ++ [v ^^^ (v >>> 16)], constant))
    ([], 0x8b51f9dd)).1

end SeedPool

/-- The state of a generator. -/
structure Generator where
  state : Nat
  increment : Nat
  /-- The upper half of the last word, if only the lower half was used. -/
  spare : Option UInt32
deriving Inhabited

namespace Generator

/-- Number of states. -/
def modulus : Nat := 2 ^ 128

/-- The state after the next step. -/
def advance (state increment : Nat) : Nat :=
  (state * 0x2360ed051fc65da44385df649fccf645 + increment) % modulus

/-- The generator of a seed. -/
def ofEntropy (entropy : List UInt32) : Generator :=
  let words := ((SeedPool.ofEntropy entropy).output.map UInt32.toNat).toArray
  let long (i : Nat) : Nat := words.getD (2 * i) 0 + words.getD (2 * i + 1) 0 * 2 ^ 32
  let start := long 0 * 2 ^ 64 + long 1
  let increment := ((long 2 * 2 ^ 64 + long 3) * 2 + 1) % modulus
  let state := advance 0 increment
  { state := advance ((state + start) % modulus) increment, increment, spare := none }

/-- Rotates a word to the right. -/
def rotateRight (x : UInt64) (n : Nat) : UInt64 :=
  let n := UInt64.ofNat (n % 64)
  (x >>> n) ||| (x <<< ((64 - n) % 64))

/-- The next word. -/
def next64 (g : Generator) : UInt64 × Generator :=
  let state := advance g.state g.increment
  let folded := UInt64.ofNat (state / 2 ^ 64) ^^^ UInt64.ofNat (state % 2 ^ 64)
  (rotateRight folded (state / 2 ^ 122), { g with state })

/-- The next half word: the lower half of a word first, then its upper half. -/
def next32 (g : Generator) : UInt32 × Generator :=
  match g.spare with
  | some w => (w, { g with spare := none })
  | none =>
      let (x, g) := g.next64
      (x.toUInt32, { g with spare := some (x >>> 32).toUInt32 })

/-- The next real from zero up to, but without, one: a multiple of `2 ^ -53`. -/
def unit (g : Generator) : Float × Generator :=
  let (x, g) := g.next64
  ((x >>> 11).toFloat * 1.1102230246251565e-16, g)

/-- The least number of the form `2 ^ k - 1` that is not below `n`. -/
def maskFor (n : Nat) : Nat := if n = 0 then 0 else 2 ^ (n.log2 + 1) - 1

/-- Draws half words until one is at most `bound` under the mask, at most `fuel` of them. -/
def drawUpTo (bound mask : Nat) : Nat → Generator → Nat × Generator
  | 0, g => (0, g)
  | fuel + 1, g =>
      let (w, g) := g.next32
      let v := w.toNat &&& mask
      if v ≤ bound then (v, g) else drawUpTo bound mask fuel g

/--
A whole number up to a bound.  Each try succeeds with a chance of more than one half, so
a thousand tries do not fail.
-/
def upTo (bound : Nat) (g : Generator) : Nat × Generator := drawUpTo bound (maskFor bound) 1000 g

/-- The generator that a value seeds. -/
def ofSeed (v : Value) : Except Fault Generator := (Seed.words v).map ofEntropy

end Generator

instance : Draws Generator where
  unit := Generator.unit
  upTo := Generator.upTo

end Plexus
