import Plexus.Compiled.Basic
import Plexus.Decimal.Render
import Plexus.Numeric.Total

/-!
# Statistics of a compiled graph

Counts of connections, how they spread over the neurons, and the spread of the weights.
A connection is a cell of the weight matrix that is not zero.  Ratios are computed in any
type with the operations of `Ratio`: in doubles for reports, and in exact fractions where
an exact statement is wanted.
-/

namespace Plexus

/-- The operations that ratios of counts are computed with. -/
class Ratio (ρ : Type) where
  ofNat : Nat → ρ
  sub : ρ → ρ → ρ
  div : ρ → ρ → ρ

instance : Ratio Float := ⟨Float.ofNat, (· - ·), (· / ·)⟩

instance : Ratio Rat := ⟨fun n => (n : Rat), (· - ·), (· / ·)⟩

/-- Statistics of a compiled graph. -/
structure Stats (α ρ : Type) where
  nodes : Nat
  edges : Nat
  maxEdges : Nat
  sparsity : ρ
  selfLoops : Nat
  averageInDegree : ρ
  maxInDegree : Nat
  maxOutDegree : Nat
  weightMean : α
  weightDeviation : α
  weightMin : α
  weightMax : α
  /-- The number of neurons of each kind, in the order in which the kinds first occur. -/
  kinds : Option (List (Kind × Nat))

namespace Stats

variable {α ρ : Type} [Scalar α] [Ratio ρ]

/-- Counts one more neuron of a kind. -/
def countKind : List (Kind × Nat) → Kind → List (Kind × Nat)
  | [], k => [(k, 1)]
  | (j, n) :: rest, k => if j = k then (j, n + 1) :: rest else (j, n) :: countKind rest k

/-- The number of neurons of each kind. -/
def kindCounts (neurons : List Neuron) : List (Kind × Nat) :=
  neurons.foldl (fun counts n => countKind counts n.kind) []

/-- Whether the connection from `s` to `t` exists. -/
def connected (c : Compiled α) (s t : Nat) : Bool :=
  Scalar.nonzero (Scalar.cell c.weights (t * c.size + s))

/-- The number of connections that end at `t`. -/
def inDegree (c : Compiled α) (t : Nat) : Nat :=
  (List.range c.size).countP fun s => connected c s t

/-- The number of connections that start at `s`. -/
def outDegree (c : Compiled α) (s : Nat) : Nat :=
  (List.range c.size).countP fun t => connected c s t

/-- The largest of some numbers; zero if there are none. -/
def largest (xs : List Nat) : Nat := xs.foldl max 0

/-- The lesser of two scalars; what is not a number wins. -/
def lesser (x y : α) : α :=
  if Scalar.isNaN x then x else if Scalar.isNaN y then y else if Scalar.less y x then y else x

/-- The greater of two scalars; what is not a number wins. -/
def greater (x y : α) : α :=
  if Scalar.isNaN x then x else if Scalar.isNaN y then y else if Scalar.less x y then y else x

/-- The mean of some scalars. -/
def mean (xs : List α) : α := Scalar.div (Scalar.total xs) (Scalar.ofNat xs.length)

/-- The standard deviation of some scalars, taken as a whole population. -/
def deviation (xs : List α) : α :=
  let m := mean xs
  Scalar.sqrt (mean (xs.map fun x => let d := Scalar.sub x m; Scalar.mul d d))

/-- A statistic of the weights; zero if there are none. -/
def ofWeights (f : List α → α) (xs : List α) : α :=
  match xs with
  | [] => Scalar.zero
  | xs => f xs

/-- The least or greatest of some scalars, as `pick` chooses between two. -/
def extreme (pick : α → α → α) : List α → α
  | [] => Scalar.zero
  | x :: xs => xs.foldl pick x

/-- The statistics of a compiled graph and, if given, of the neurons it was compiled from. -/
def ofGraph (c : Compiled α) (neurons : Option (List Neuron)) : Stats α ρ :=
  let n := c.size
  let slots := List.range n
  let weights := c.weights.toList.filter Scalar.nonzero
  let edges := weights.length
  let maxEdges := n * n
  let ratio (a b : Nat) : ρ := Ratio.div (Ratio.ofNat a) (Ratio.ofNat b)
  { nodes := n
    edges
    maxEdges
    sparsity :=
      if 0 < maxEdges then Ratio.sub (Ratio.ofNat 1) (ratio edges maxEdges) else Ratio.ofNat 0
    selfLoops := slots.countP fun i => connected c i i
    averageInDegree := if 0 < n then ratio edges n else Ratio.ofNat 0
    maxInDegree := largest (slots.map (inDegree c))
    maxOutDegree := largest (slots.map (outDegree c))
    weightMean := ofWeights mean weights
    weightDeviation := ofWeights deviation weights
    weightMin := extreme lesser weights
    weightMax := extreme greater weights
    kinds := neurons.map kindCounts }

/-- A rule across the page. -/
def rule : String := String.ofList (List.replicate 60 '=')

/-- The lines of the printed report. -/
def report (s : Stats α Float) : List String :=
  let places (n : Nat) (x : Float) : String := Decimal.fixed n true x
  let weight (x : α) : String := places 4 (Scalar.toFloat x)
  let nodes := s.nodes
  let edges := s.edges
  let maxEdges := s.maxEdges
  let selfLoops := s.selfLoops
  let maxIn := s.maxInDegree
  let maxOut := s.maxOutDegree
  let kinds :=
    match s.kinds with
    | none => []
    | some counts =>
        let sorted := counts.mergeSort fun a b => !(b.1.tag < a.1.tag)
        "" :: "Kinds:" :: sorted.map fun (k, n) => "  " ++ k.tag ++ ": " ++ toString n
  ["", rule, "Neural Graph Statistics", rule,
    "", "Topology:",
    s!"  Neurons: {nodes}",
    s!"  Connections: {edges}",
    s!"  Max possible: {maxEdges}",
    "  Sparsity: " ++ places 2 (s.sparsity * 100.0) ++ "%",
    s!"  Self-loops: {selfLoops}",
    "", "Connectivity:",
    "  Avg in-degree: " ++ places 2 s.averageInDegree,
    s!"  Max in/out degree: {maxIn}/{maxOut}",
    "", "Weights:",
    "  Mean: " ++ weight s.weightMean ++ " ± " ++ weight s.weightDeviation,
    "  Range: [" ++ weight s.weightMin ++ ", " ++ weight s.weightMax ++ "]"]
    ++ kinds ++ [rule, ""]

/-- The printed report. -/
def reportText (s : Stats α Float) : String := String.join (s.report.map (· ++ "\n"))

end Stats
end Plexus
