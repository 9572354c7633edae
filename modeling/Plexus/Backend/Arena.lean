import Plexus.Backend.Workgroup
import Plexus.Value.Number

/-!
# The arena of the dense backend

The dense backend keeps its network in an arena of buffers: parameters in their storage
precision, the last input and output, and, once training is prepared, deltas, targets and
the learning rate.  `Arena.forward` and `Arena.train` are the two ticks.

Buffers with one row per sample are stored row by row: slot `t` of row `b` is cell
`b * size + t`.
-/

namespace Plexus

/-- The buffers of training. -/
structure TrainingBuffers (α : Type) where
  deltas : Array α
  targets : Array α
  rate : α
  /-- The precision that deltas are stored in. -/
  precision : Precision

/-- The buffers of a prepared network. -/
structure Arena (α : Type) where
  weights : Array α
  biases : Array α
  input : Array α
  output : Array α
  /-- The size of the network and the number of rows. -/
  dims : List Nat
  codes : Array Activation
  staging : Array α
  training : Option (TrainingBuffers α)
  /-- The precision that weights and biases are stored in. -/
  precision : Precision

/-- What a buffer of the arena is for. -/
inductive BufferRole where
  | weights
  | biases
  | input
  | output
  | dims
  | codes
  | staging
  | deltas
  | targets
  | params
deriving DecidableEq, Inhabited

namespace BufferRole

/-- The name of a role. -/
def name : BufferRole → String
  | .weights => "weights"
  | .biases => "biases"
  | .input => "input"
  | .output => "output"
  | .dims => "dims"
  | .codes => "codes"
  | .staging => "staging"
  | .deltas => "deltas"
  | .targets => "targets"
  | .params => "params"

/-- The buffers of a network, in the order in which they are allocated. -/
def network : List BufferRole := [.weights, .biases, .input, .output, .dims, .codes, .staging]

/-- The buffers of training, in the order in which they are allocated. -/
def training : List BufferRole := [.deltas, .targets, .params]

end BufferRole

namespace TrainingBuffers

variable {α : Type} [Scalar α]

/-- The buffers of training; there are no deltas yet. -/
def allocate (precision : Precision) (size batch : Nat) (targets : Array α) (rate : Float) :
    TrainingBuffers α :=
  { deltas := Scalar.zeros (batch * size)
    targets
    rate := Scalar.ofFloat rate
    precision }

/-- The cells of a buffer of training, as doubles; other buffers have none here. -/
def contents (t : TrainingBuffers α) : BufferRole → List Float
  | .deltas => t.deltas.toList.map Scalar.toFloat
  | .targets => t.targets.toList.map Scalar.toFloat
  | .params => [Scalar.toFloat t.rate]
  | _ => []

end TrainingBuffers

namespace Arena

variable {α : Type} [Scalar α]

/-- The buffers of a network; nothing has run yet. -/
def allocate (precision : Precision) (size batch : Nat) (weights biases : Array α)
    (codes : List Activation) : Arena α :=
  { weights := weights.map (Scalar.store precision)
    biases := biases.map (Scalar.store precision)
    input := Scalar.zeros (batch * size)
    output := Scalar.zeros (batch * size)
    dims := [size, batch]
    codes := codes.toArray
    staging := Scalar.zeros (batch * size)
    training := none
    precision }

/-- Adds the buffers of training, or replaces them. -/
def allocateTraining (a : Arena α) (precision : Precision) (size batch : Nat) (targets : Array α)
    (rate : Float) : Arena α :=
  { a with training := some (.allocate precision size batch targets rate) }

/-- The roles of the allocated buffers. -/
def roles (a : Arena α) : List BufferRole :=
  BufferRole.network ++ if a.training.isSome then BufferRole.training else []

/-- The cells of a buffer, as doubles. -/
def contents (a : Arena α) : BufferRole → List Float
  | .weights => a.weights.toList.map Scalar.toFloat
  | .biases => a.biases.toList.map Scalar.toFloat
  | .input => a.input.toList.map Scalar.toFloat
  | .output => a.output.toList.map Scalar.toFloat
  | .dims => a.dims.map fun n => Scalar.toFloat (Scalar.ofNat n : α)
  | .codes => a.codes.toList.map fun c => Float.ofNat c.code
  | .staging => a.staging.toList.map Scalar.toFloat
  | role => (a.training.map fun t => t.contents role).getD []

/-- The activation function of a slot. -/
def codeAt (a : Arena α) (t : Nat) : Activation := a.codes[t]?.getD .tanh

/-- What slot `t` of a network of `size` slots sums up for row `b` of an input. -/
@[specialize] def preactivation (a : Arena α) (size : Nat) (input : Array α) (b t : Nat) : α :=
  Scalar.add (Scalar.dot size input (b * size) a.weights (t * size)) (Scalar.cell a.biases t)

/-- The outputs of one group for one row. -/
@[specialize]
def forwardGroup (a : Arena α) (size : Nat) (input : Array α) (b : Nat) (g : Workgroup) :
    List α :=
  Activation.apply (g.slots.map a.codeAt) (g.slots.map (a.preactivation size input b))

/-- The outputs of all groups for one row. -/
@[specialize] def forwardRow (a : Arena α) (size : Nat) (input : Array α) (b : Nat) : List α :=
  (Workgroup.groups size).flatMap (a.forwardGroup size input b)

/-- One forward tick: the input and the output are kept, and a copy of the output is staged. -/
@[specialize] def forward (a : Arena α) (size batch : Nat) (input : Array α) : Arena α :=
  let output := (Workgroup.overRows size batch (a.forwardRow size input)).toArray
  { a with input, output, staging := output }

/-- The cells of the slots of a group in a row of a buffer. -/
@[specialize] def cellsOf (size : Nat) (buffer : Array α) (b : Nat) (g : Workgroup) : List α :=
  g.slots.map fun t => Scalar.cell buffer (b * size + t)

/-- The deltas of one group for one row; zero where the target gives no supervision. -/
@[specialize]
def deltaGroup (a : Arena α) (size : Nat) (t : TrainingBuffers α) (b : Nat) (g : Workgroup) :
    List α :=
  let outputs := cellsOf size a.output b g
  let targets := cellsOf size t.targets b g
  let errors := List.zipWith Scalar.mul (List.zipWith Scalar.sub outputs targets)
    (Activation.slopes (g.slots.map a.codeAt) outputs)
  List.zipWith
    (fun target e =>
      Scalar.store t.precision (if Scalar.supervised target then e else Scalar.zero))
    targets errors

/-- The deltas of all rows, in the precision they are stored in. -/
@[specialize] def deltas (a : Arena α) (size batch : Nat) (t : TrainingBuffers α) : Array α :=
  (Workgroup.overRows size batch fun b =>
    (Workgroup.groups size).flatMap (a.deltaGroup size t b)).toArray

/--
Sums over the rows of a batch.  A group has `width` neighbouring sums for each of its slots; to
these it adds what `row` gives it for one row after the other.
-/
@[specialize]
def accumulate (size batch width : Nat) (row : Workgroup → Nat → List α) : Array α :=
  (Workgroup.groups size).foldl
    (fun sums g => (List.range batch).foldl
      (fun sums b => Scalar.addFrom sums (g.start * width) (row g b)) sums)
    (Scalar.zeros (size * width))

/-- The products of each number with all others, row by row. -/
@[specialize] def outer (xs ys : List α) : List α := xs.flatMap fun x => ys.map (Scalar.mul x)

/-- The gradients of all weights, row by row. -/
@[specialize]
def weightGradients (a : Arena α) (size batch : Nat) (deltas : Array α) : Array α :=
  accumulate size batch size fun g b =>
    outer (cellsOf size deltas b g)
      ((List.range size).map fun s => Scalar.cell a.input (b * size + s))

/-- The gradients of all biases. -/
@[specialize] def biasGradients (size batch : Nat) (deltas : Array α) : Array α :=
  accumulate size batch 1 fun g b => cellsOf size deltas b g

/-- Whether a rank cuts the gradients of a network down. -/
def cuts (size : Nat) (rank : Number) : Bool :=
  (Number.whole 0).less rank && rank.less (.whole size)

/--
The rank that an update is cut down to; none if the rank that was given leaves it whole.  A
real is of no use as a rank that would count.
-/
def cutRank (size : Nat) (rank : Number) : Except Fault (Option Nat) :=
  if cuts size rank then rank.toInt.map fun k => some k.toNat else .ok none

/-- The gradients of all weights as they are applied: those of low rank, if a rank is asked for. -/
@[specialize]
def updateGradients (a : Arena α) (size batch : Nat) (rank : Option Nat) (deltas : Array α) :
    Array α :=
  let gradients := a.weightGradients size batch deltas
  match rank with
  | some k => Scalar.principal size size k gradients
  | none => gradients

/-- Refuses gradients that are to be cut down and are not all numbers. -/
@[specialize]
def checkGradients (a : Arena α) (size batch : Nat) (rank : Number) (deltas : Array α) :
    Except Fault Unit :=
  if cuts size rank && (a.weightGradients size batch deltas).any Scalar.isNaN then
    .error .notDecomposable
  else .ok ()

/-- Moves a parameter against its gradient; both the step and the result are rounded. -/
@[specialize] def descend (precision : Precision) (rate parameter gradient : α) : α :=
  Scalar.store precision
    (Scalar.sub parameter (Scalar.store precision (Scalar.mul rate gradient)))

/--
The deltas of a training tick against the last forward tick.  Those that are given are taken
as they are, up to their storage precision.
-/
@[specialize]
def deltasOf (a : Arena α) (size batch : Nat) (t : TrainingBuffers α) (given : Option (Array α)) :
    Array α :=
  match given with
  | some ds => ds.map (Scalar.store t.precision)
  | none => a.deltas size batch t

/-- Keeps deltas. -/
def keepDeltas (a : Arena α) (t : TrainingBuffers α) (deltas : Array α) : Arena α :=
  { a with training := some { t with deltas } }

/-- The update of a training tick: parameters move against their gradients. -/
@[specialize]
def update (a : Arena α) (size batch : Nat) (rank : Option Nat) (t : TrainingBuffers α)
    (deltas : Array α) : Arena α :=
  let step := descend a.precision t.rate
  { a with
    weights := a.weights.zipWith step (a.updateGradients size batch rank deltas)
    biases := a.biases.zipWith step (biasGradients size batch deltas) }

/-- One training tick against the last forward tick. -/
def train (a : Arena α) (size batch : Nat) (rank : Option Nat) (t : TrainingBuffers α)
    (given : Option (Array α)) : Arena α :=
  let deltas := a.deltasOf size batch t given
  (a.keepDeltas t deltas).update size batch rank t deltas

end Arena

/-- The buffers that a dense backend holds. -/
inductive Holding (α : Type) where
  | nothing
  | network (arena : Arena α)
  /-- Deltas alone: the rows of a network without slots were too many for its targets. -/
  | deltas (cells : Array α) (precision : Precision)
  /-- Those of training alone: there was no room for their network, which has no slots. -/
  | training (buffers : TrainingBuffers α)

namespace Holding

variable {α : Type} [Scalar α]

/-- The buffers of a network, if they are held. -/
def arena? : Holding α → Option (Arena α)
  | .network a => some a
  | _ => none

/-- The buffers of training, if they are held. -/
def training? : Holding α → Option (TrainingBuffers α)
  | .nothing | .deltas .. => none
  | .network a => a.training
  | .training t => some t

/-- The roles of the allocated buffers. -/
def roles : Holding α → List BufferRole
  | .nothing => []
  | .network a => a.roles
  | .deltas .. => [.deltas]
  | .training _ => BufferRole.training

/-- The cells of a buffer, as doubles. -/
def contents (h : Holding α) (role : BufferRole) : List Float :=
  match h with
  | .nothing => []
  | .network a => a.contents role
  | .deltas cells _ => if role = .deltas then cells.toList.map Scalar.toFloat else []
  | .training t => t.contents role

/--
The buffers with deltas that are allocated before the other buffers of training.  They show only
where no others are held, as a network and targets are held for rows that are not too many.
-/
def withDeltas (h : Holding α) (cells : Array α) (precision : Precision) : Holding α :=
  match h with
  | .nothing | .deltas .. => .deltas cells precision
  | .network _ | .training _ => h

/-- The buffers with others for training in place of those that are held. -/
def withTraining (h : Holding α) (t : TrainingBuffers α) : Holding α :=
  match h with
  | .network a => .network { a with training := some t }
  | _ => .training t

end Holding
end Plexus
