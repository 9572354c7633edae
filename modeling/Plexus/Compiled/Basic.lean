import Plexus.Attempt
import Plexus.Graph.Neuron
import Plexus.Graph.Synapse
import Plexus.Numeric.Scalar

/-!
# Compiled graphs

Compiling a graph gives each neuron the index of its place in the neuron list and writes
the weights into a square matrix, row by row: the row is the index of the target, the
column that of the source.  A synapse with an end that is no neuron has no effect, and of
several synapses between the same two neurons the last one counts.
-/

namespace Plexus

/-- A table from identifiers to indices, in the order in which the identifiers were first put in. -/
abbrev IndexTable := List (Value × Nat)

namespace IndexTable

/-- The index of an identifier. -/
def find? : IndexTable → Value → Option Nat
  | [], _ => none
  | (key, i) :: rest, id => if key.same id then some i else find? rest id

/-- Sets the index of an identifier; one that is already there keeps its place. -/
def insert : IndexTable → Value → Nat → IndexTable
  | [], id, i => [(id, i)]
  | (key, j) :: rest, id, i =>
      if key.same id then (key, i) :: rest else (key, j) :: insert rest id i

/-- Enters identifiers one after the other, from index `next` on. -/
def enter (table : IndexTable) (next : Nat) : List Value → IndexTable
  | [] => table
  | id :: ids => enter (table.insert id next) (next + 1) ids

/-- The table of a list of identifiers.  Of equal identifiers the last position counts. -/
def ofIds (ids : List Value) : IndexTable := enter [] 0 ids

end IndexTable

/-- A snapshot of a graph as dense buffers. -/
structure Compiled (α : Type) where
  size : Nat
  /-- The weights: the cell of the connection from `s` to `t` is `t * size + s`. -/
  weights : Array α
  biases : Array α
  index : IndexTable
  ids : List Value
  activations : List Value

namespace Compiled

variable {α : Type} [Scalar α]

/-- The cell of a synapse in a matrix of a size, if both its ends are neurons. -/
def cellOf? (index : IndexTable) (size : Nat) (s : Synapse) : Option Nat :=
  match index.find? s.source, index.find? s.target with
  | some source, some target => some (target * size + source)
  | _, _ => none

/-- Writes the weight of a synapse into its cell. -/
def writeWeight (index : IndexTable) (size : Nat) (weights : Array α) (s : Synapse) : Array α :=
  match cellOf? index size s with
  | some i => weights.setIfInBounds i (Scalar.ofFloat s.weight)
  | none => weights

/-- The compiled graph of neurons and synapses. -/
def flatten (neurons : List Neuron) (synapses : List Synapse) : Compiled α :=
  let ids := neurons.map Neuron.id
  let index := IndexTable.ofIds ids
  let size := neurons.length
  { size
    weights := synapses.foldl (writeWeight index size) (Scalar.zeros (size * size))
    biases := (neurons.map fun n => Scalar.ofFloat n.bias).toArray
    index
    ids
    activations := neurons.map Neuron.activation }

/-- Whether every identifier of a graph can name something. -/
def nameable (neurons : List Neuron) (synapses : List Synapse) : Bool :=
  (neurons.all fun n => n.id.isScalar) &&
    synapses.all fun s => s.source.isScalar && s.target.isScalar

/-- The compiled graph, or a fault if an identifier is no name. -/
def compile (neurons : List Neuron) (synapses : List Synapse) : Except Fault (Compiled α) :=
  if nameable neurons synapses then .ok (flatten neurons synapses) else .error .mistyped

/-- The number of synapses of a graph that have an end that is no neuron. -/
def droppedCount (neurons : List Neuron) (synapses : List Synapse) : Nat :=
  let index := IndexTable.ofIds (neurons.map Neuron.id)
  synapses.countP fun s => (cellOf? index neurons.length s).isNone

/-- What the compiler notes about a graph. -/
def notes (neurons : List Neuron) (synapses : List Synapse) : List String :=
  let dropped := droppedCount neurons synapses
  if dropped = 0 then [] else [s!"Dropped {dropped} synapses with unresolved endpoints"]

/-- The index of an identifier, which must be that of a neuron. -/
def indexOf (c : Compiled α) (id : Value) : Except Fault Nat :=
  if !id.isScalar then .error .mistyped
  else match c.index.find? id with
    | some i => .ok i
    | none => .error (.missingKey id)

/-- The weight of the connection from one neuron to another. -/
def weight (c : Compiled α) (source target : Value) : Except Fault α := do
  let s ← c.indexOf source
  let t ← c.indexOf target
  return Scalar.cell c.weights (t * c.size + s)

/-- The number of weights that are not zero. -/
def nonzeroCount (c : Compiled α) : Nat := c.weights.toList.countP Scalar.nonzero

/-- A compiled graph in messages. -/
def describe (c : Compiled α) : String :=
  let size := c.size
  let count := c.nonzeroCount
  s!"CompiledGraph(size={size}, nonzero_weights={count})"

end Compiled

/-- A compiler.  It keeps nothing from one graph to the next. -/
structure Compiler where

/-- Compiles a graph. -/
def Compiler.flatten {α : Type} [Scalar α] (neurons : List Neuron) (synapses : List Synapse) :
    Attempt Compiler (Compiled α) :=
  Attempt.of (Compiled.compile neurons synapses)

end Plexus
