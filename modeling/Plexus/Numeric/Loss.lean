import Plexus.Numeric.Total
import Plexus.Value.Number

/-!
# The loss of a tick

The squared error over the supervised slots, divided by the number of samples.
-/

namespace Plexus
namespace Loss

variable {α : Type} [Scalar α]

/-- The squared error of one slot. -/
def squaredError (output target : α) : α :=
  let e := Scalar.sub output target
  Scalar.mul e e

/-- The squared errors of the supervised slots, in order. -/
def errors (outputs targets : List α) : List α :=
  ((outputs.zip targets).filter fun p => Scalar.supervised p.2).map fun p => squaredError p.1 p.2

/--
The loss.  Without any supervised slot it is zero; with one, outputs and targets must have
the same length.
-/
def squared (outputs targets : Array α) (divisor : Except Fault α) : Except Fault α :=
  if !targets.toList.any Scalar.supervised then .ok Scalar.zero
  else if outputs.size ≠ targets.size then .error .outOfRange
  else divisor.map fun d => Scalar.div (Scalar.total (errors outputs.toList targets.toList)) d

/-- The divisor for a number of samples, which counts as one at least. -/
def divisor (batch : Nat) : α := Scalar.ofNat (max batch 1)

/-- The divisor for a number of samples that a value gives. -/
def divisorOfValue (v : Value) : Except Fault α := do
  match ← v.toNumber with
  | .real x => return if x < 1.0 then Scalar.ofNat 1 else Scalar.ofFloat x
  | n =>
      let _ ← Value.toFloat (.int n.count)
      return divisor n.count

end Loss
end Plexus
