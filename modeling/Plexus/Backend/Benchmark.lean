import Plexus.Backend.Basic
import Plexus.Decimal.Render

/-!
# Benchmarks

A benchmark sets up a dense backend with a blank network, then runs forward ticks and
training ticks on it.  The durations are measured by whoever runs it; what is fixed here is
the work that is done and how the results are reported.
-/

namespace Plexus

/-- What a benchmark runs. -/
structure Benchmark where
  label : Value
  size : Value
  batch : Value
  iterations : Value
  device : Value

namespace Benchmark

/-- Measured durations, in milliseconds. -/
structure Timings where
  init : Float
  inference : Float
  training : Float

/-- The names of the results. -/
def resultNames : List String :=
  ["init_ms", "inference_ms", "inference_samples_per_sec", "training_ms",
    "training_samples_per_sec"]

/-- The lines that announce a benchmark. -/
def heading (b : Benchmark) : List String :=
  let label := b.label.display
  let size := b.size.display
  let batch := b.batch.display
  ["", s!"--- Benchmark: {label} ---", s!"Network: {size} Neurons, Batch: {batch}"]

/-- The number of samples that a measurement runs through; it is as negative as its factors. -/
def samples (b : Benchmark) : Int :=
  let count (v : Value) : Int := (v.number?.bind Number.whole?).getD 0
  count b.iterations * count b.batch

/-- The number of samples per second. -/
def throughput (b : Benchmark) (ms : Float) : Float :=
  if ms == 0.0 then 0.0 else Float.ofInt b.samples / (ms / 1000.0)

/-- The lines that report the results. -/
def results (b : Benchmark) (t : Timings) : List String :=
  let iterations := b.iterations.display
  let ms (x : Float) : String := Decimal.fixed 2 true x ++ "ms"
  let rate (x : Float) : String :=
    "Throughput: " ++ Decimal.fixed 0 true (b.throughput x) ++ " samples/sec"
  ["Initialization/Upload: " ++ ms t.init,
    "Inference: " ++ ms t.inference ++ s!" for {iterations} ticks",
    rate t.inference,
    "Training: " ++ ms t.training ++ s!" for {iterations} ticks",
    rate t.training]

/-- The line that reports why there is no backend. -/
def failure (reason : String) : String := "Backend initialization failed: " ++ reason

variable {α : Type} [Scalar α]

/-- A blank buffer of a size. -/
def blank (memory : Memory) (cells : Int) : Operand α :=
  (Value.heldLength memory Scalar.bytes cells).map Scalar.zeros

/-- Runs a step a number of times. -/
def repeatStep {σ : Type} (step : Attempt σ Unit) : Nat → Attempt σ Unit
  | 0 => pure ()
  | n + 1 => do
      step
      repeatStep step n

/-- The work of a benchmark on a backend that is initialised. -/
@[specialize] def work (b : Benchmark) : Attempt (Backend α) Unit := do
  let ready ← get
  let size ← Attempt.of b.size.extent
  let weights : Array α ← Attempt.of (blank ready.host.memory (size * size))
  let biases ← Attempt.of (blank ready.host.memory size)
  let batch ← Attempt.of b.batch.toInt
  let inputs ← Attempt.of (blank ready.host.memory (size * batch))
  Backend.prepare b.size (.ok weights) (.ok biases) b.batch.toNumber (.ok none)
  Backend.prepareTraining (.ok inputs) (.ok 0.01)
  let _ ← Backend.forward (.ok inputs)
  let iterations ← Attempt.of b.iterations.toInt
  repeatStep (do let _ ← Backend.forward (.ok inputs)) iterations.toNat
  repeatStep (Backend.trainTick none) iterations.toNat
  modify Backend.release

/-- What comes of a benchmark. -/
inductive Outcome where
  | completed
  /-- The host lacks the device. -/
  | unavailable (reason : String)

/-- Runs a benchmark on a host, with networks over `α`. -/
@[specialize]
def run (α : Type) [Scalar α] (host : Host) (b : Benchmark) : Except Fault Outcome :=
  match Backend.init.outcome (Backend.dense host b.device .default : Backend α) with
  | (.error e, _) =>
      if e.family = .platformUnavailable then .ok (.unavailable (e.message.getD "")) else .error e
  | (.ok (), ready) => ((work b).outcome ready).1.map fun _ => .completed

/-- The lines of a benchmark's report. -/
def report (b : Benchmark) (t : Timings) : Outcome → List String
  | .completed => b.heading ++ b.results t
  | .unavailable reason => b.heading ++ [failure reason]

end Benchmark
end Plexus
