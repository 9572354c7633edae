import Plexus.Numeric.Precision
import Plexus.Value.Number
import Plexus.Value.Record

/-!
# Training settings

The settings keep their numbers in the form in which they were given: a rank or a batch
size may be a truth value, and is not refused for being a real until it is used.
-/

namespace Plexus

/-- How a network is trained. -/
structure TrainingSettings where
  /-- The rank of a weight update; zero applies the full update. -/
  rank : Number
  /-- The storage precision of weights and biases. -/
  basePrecision : Precision
  /-- The storage precision of deltas. -/
  adapterPrecision : Precision
  /-- The number of samples of a training tick. -/
  microBatchSize : Number
  /-- How long the oldest sample of a partial batch waits to be trained on, in milliseconds. -/
  idleFlushMs : Number
  microBatchSize_not_less : microBatchSize.less (.whole 1) = false

namespace TrainingSettings

/-- Full updates in single precision, one sample a tick. -/
def default : TrainingSettings := ⟨.whole 0, .fp32, .fp32, .whole 1, .real 250.0, by decide⟩

instance : Inhabited TrainingSettings := ⟨default⟩

/-- A whole batch size is at least one. -/
theorem count_microBatchSize_pos {s : TrainingSettings} {n : Int}
    (h : s.microBatchSize.whole? = some n) : 1 ≤ s.microBatchSize.count := by
  have hless := s.microBatchSize_not_less
  rw [Number.count, h, Option.getD_some]
  cases hb : s.microBatchSize with
  | whole m =>
      rw [hb] at h hless
      simp only [Number.whole?, Option.some.injEq] at h
      simp only [Number.less_whole_whole, decide_eq_false_iff_not] at hless
      omega
  | flag b =>
      rw [hb] at h hless
      cases b
      · exact absurd hless (by decide)
      · simp only [Number.whole?, Number.ofFlag, if_true, Option.some.injEq] at h
        omega
  | real x =>
      rw [hb] at h
      simp [Number.whole?] at h

/-- A number that is not less than a bound. -/
def atLeast (least : Int) (fault : Fault) (v : Value) : Except Fault Number := do
  let n ← v.toNumber
  if n.less (.whole least) then throw fault else return n

/-- The same settings with another batch size. -/
def withBatchSize (s : TrainingSettings) (size : Number) : Except Fault TrainingSettings :=
  if h : size.less (.whole 1) = false then
    .ok { s with microBatchSize := size, microBatchSize_not_less := h }
  else .error (.batchNotPositive "micro_batch_size")

/-- The same settings with the batch size that a value gives. -/
def resized (s : TrainingSettings) (size : Value) : Except Fault TrainingSettings := do
  s.withBatchSize (← size.toNumber)

/-- The names of the settings. -/
def names : List String :=
  ["rank", "base_precision", "adapter_precision", "micro_batch_size", "idle_flush_ms"]

/-- Reads settings from named values; the others keep their defaults. -/
def ofFields (fs : List (String × Value)) : Except Fault TrainingSettings := do
  Value.strict names [] fs
  let rank ← atLeast 0 (.negative "rank") (Value.optional fs "rank" (.int 0))
  let basePrecision ←
    Precision.ofValue "base_precision" (Value.optional fs "base_precision" (.text "fp32"))
  let adapterPrecision ←
    Precision.ofValue "adapter_precision" (Value.optional fs "adapter_precision" (.text "fp32"))
  let settings ← resized { default with rank, basePrecision, adapterPrecision }
    (Value.optional fs "micro_batch_size" (.int 1))
  let idleFlushMs ←
    atLeast 0 (.negative "idle_flush_ms") (Value.optional fs "idle_flush_ms" (.real 250.0))
  return { settings with idleFlushMs }

/-- Settings for training with throughput in mind; only the batch size can be chosen. -/
def batched (fs : List (String × Value)) : Except Fault TrainingSettings := do
  Value.strict ["micro_batch_size"] [] fs
  ofFields [
    ("micro_batch_size", Value.optional fs "micro_batch_size" (.int 32)),
    ("idle_flush_ms", .real 50.0)]

/-- The settings as named values. -/
def toValue (s : TrainingSettings) : Except Fault Value := do
  let idle ← s.idleFlushMs.toFloat
  return .object [
    ("rank", s.rank.toValue),
    ("base_precision", .text s.basePrecision.name),
    ("adapter_precision", .text s.adapterPrecision.name),
    ("micro_batch_size", s.microBatchSize.toValue),
    ("idle_flush_ms", .real idle)]

end TrainingSettings
end Plexus
