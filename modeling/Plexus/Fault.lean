import Plexus.Backend.Stage
import Plexus.Value.Display

/-!
# Faults

Every way in which an operation can fail is a constructor of `Fault`, with the data of
the failure.  `Fault.message` words it, for the faults that this library words itself,
and `Fault.family` says of what kind it is.
-/

namespace Plexus

/-- Why an operation failed. -/
inductive Fault where
  /-- A backend operation needs a later stage than the backend is in. -/
  | stageTooEarly (backend : String) (stage : Stage) (operation : String) (needed : Stage)
  /-- An engine operation came before the engine was initialised. -/
  | engineNotInitialized (operation : String)
  | nothingCompiled
  | trainingNotPrepared
  | inputSize (expected : Number) (got : Nat)
  | targetSize (expected : Number) (got : Nat)
  | unsupported (backend operation : String)
  | documentNotObject
  | documentLacksArray (key : String)
  | deviceAbsent (device : String)
  | noAccelerator
  | graphNeedsAccelerator
  | noBackend
  /-- A record has no field, or a table no row, for this key. -/
  | missingKey (key : Value)
  | entityExists (id : Value)
  | unknownSynapse (id : Value)
  /-- There is no subscription of this name to end. -/
  | unknownSubscriber (name : String)
  /-- A column of a table cannot hold the value. -/
  | notStorable
  | notUnique (column : String)
  | notNull (column : String)
  | unknownKind (value : Value)
  | unknownEvent (value : Value)
  | unknownActivation (value : Value)
  | activationCount (expected : Value) (got : Nat)
  | weightCount (expected : Value) (got : Nat)
  | biasCount (expected : Value) (got : Nat)
  | batchNotPositive (field : String)
  | negative (field : String)
  | notPositive (field : String)
  | unknownPrecision (field : String)
  | unknownBackend
  | unknownSkip (name : String)
  | unknownPreset (name : String)
  | rowCounts (inputs targets : Nat)
  | undirected
  /-- The conversion to or from a directed graph is not installed. -/
  | graphPackageAbsent
  /-- A subscriber failed; the name is the subscriber's. -/
  | subscriber (name : String)
  | undecodableBytes
  /-- A text with half of a pair on its own has no bytes. -/
  | unencodableText
  | malformedDocument
  /-- Lists and objects lie too deep within each other. -/
  | tooDeep
  /-- A value of the wrong type. -/
  | mistyped
  /-- A value of the right type that cannot be used. -/
  | badValue
  | tooLarge
  | outOfRange
  /-- The device name is not one, or a number does not fit where it is stored. -/
  | deviceRefused
  /-- A matrix with cells that are not numbers has no directions to keep. -/
  | notDecomposable
  /-- The extents of arrays do not go together, or there are too few of them. -/
  | badExtents
  /-- There is no room for an array. -/
  | noRoom
  /-- There is nothing to apply the operation to. -/
  | absent
deriving Inhabited

namespace Fault

/-- The kinds of faults. -/
inductive Family where
  | graph
  | notReady
  | inputSizeMismatch
  | targetSizeMismatch
  | unsupportedOperation
  | invalidDocument
  | platformUnavailable
  | state
  | value
  | key
  | index
  | type
  | overflow
  | storage
  | integrity
  | package
  | subscriber
  | decoding
  | encoding
  | grammar
  | depth
  | numerical
  | memory
  | absence
deriving DecidableEq, Inhabited

/-- A family and the wider families it belongs to, from the narrowest on. -/
def Family.lineage : Family → List Family
  | .notReady => [.notReady, .graph, .state]
  | .inputSizeMismatch => [.inputSizeMismatch, .graph, .value]
  | .targetSizeMismatch => [.targetSizeMismatch, .graph, .value]
  | .unsupportedOperation => [.unsupportedOperation, .graph, .state]
  | .invalidDocument => [.invalidDocument, .graph, .value]
  | .platformUnavailable => [.platformUnavailable, .graph, .state]
  | .numerical => [.numerical, .state]
  | f => [f]

/-- Of what kind a fault is. -/
def family : Fault → Family
  | .stageTooEarly .. | .engineNotInitialized _ | .nothingCompiled | .trainingNotPrepared =>
      .notReady
  | .inputSize .. => .inputSizeMismatch
  | .targetSize .. => .targetSizeMismatch
  | .unsupported .. => .unsupportedOperation
  | .documentNotObject | .documentLacksArray _ => .invalidDocument
  | .deviceAbsent _ | .noAccelerator | .graphNeedsAccelerator | .noBackend => .platformUnavailable
  | .missingKey _ | .entityExists _ | .unknownSynapse _ | .unknownSubscriber _ => .key
  | .notStorable => .storage
  | .notUnique _ | .notNull _ => .integrity
  | .unknownKind _ | .unknownEvent _ | .unknownActivation _ | .activationCount .. | .weightCount ..
  | .biasCount .. | .batchNotPositive _ | .negative _ | .notPositive _ | .unknownPrecision _
  | .unknownBackend | .unknownSkip _ | .unknownPreset _ | .rowCounts .. | .undirected
  | .badValue => .value
  | .graphPackageAbsent => .package
  | .subscriber _ => .subscriber
  | .undecodableBytes => .decoding
  | .unencodableText => .encoding
  | .malformedDocument => .grammar
  | .tooDeep => .depth
  | .mistyped => .type
  | .tooLarge => .overflow
  | .outOfRange => .index
  | .deviceRefused | .badExtents => .state
  | .notDecomposable => .numerical
  | .noRoom => .memory
  | .absent => .absence

/-- The activation tags, as a message lists them. -/
def activationTags : String := "['tanh', 'relu', 'sigmoid', 'linear']"

/-- The precision names, as a message lists them. -/
def precisionNames : String := "('fp32', 'fp16', 'bf16')"

/-- The words for a fault; `none` where this library leaves the wording open. -/
def message : Fault → Option String
  | .stageTooEarly backend stage operation needed =>
      let now := stage.name
      let least := needed.name
      some s!"{backend} backend is {now}; {operation} requires {least}"
  | .engineNotInitialized operation => some s!"Engine.init() must be called before {operation}()"
  | .nothingCompiled => some "Nothing compiled yet"
  | .trainingNotPrepared => some "prepare_training() must be called before train_tick()"
  | .inputSize expected got =>
      let expected := expected.display
      some s!"Input size mismatch. Expected {expected}, got {got}"
  | .targetSize expected got =>
      let expected := expected.display
      some s!"Target size mismatch. Expected {expected}, got {got}"
  | .unsupported backend operation => some s!"Backend '{backend}' does not support {operation}"
  | .documentNotObject => some "Graph document must be an object"
  | .documentLacksArray key => some s!"Graph document is missing the '{key}' array"
  | .deviceAbsent device => some s!"{device} device requested but not available"
  | .noAccelerator => some "No accelerator device found"
  | .graphNeedsAccelerator =>
      some "Graph-built backend requested but no accelerator is available"
  | .noBackend => some "No compute backend is available on this platform"
  | .missingKey (.text key) => some key
  | .missingKey _ => none
  | .entityExists id => some ("Entity already exists: " ++ id.display)
  | .unknownSynapse id => some ("Unknown synapse: " ++ id.display)
  | .unknownSubscriber name => some name
  | .notUnique column => some s!"UNIQUE constraint failed: {column}"
  | .notNull column => some s!"NOT NULL constraint failed: {column}"
  | .unknownKind value => some (value.quoted ++ " is not a valid NeuronKind")
  | .unknownEvent value => some (value.quoted ++ " is not a valid EventKind")
  | .unknownActivation value =>
      some ("Unknown activation function: " ++ value.display ++ ". Must be one of " ++
        activationTags)
  | .activationCount expected got =>
      let expected := expected.display
      some s!"Expected {expected} activation tags, got {got}"
  | .weightCount expected got =>
      let expected := expected.display
      some s!"Expected {expected} weights, got {got}"
  | .biasCount expected got =>
      let expected := expected.display
      some s!"Expected {expected} biases, got {got}"
  | .batchNotPositive field => some s!"{field} must be >= 1"
  | .negative field => some s!"{field} must be >= 0"
  | .notPositive field => some s!"{field} must be > 0"
  | .unknownPrecision field => some (field ++ " must be one of " ++ precisionNames)
  | .unknownBackend => some "backend must be one of ('auto', 'dense', 'graph')"
  | .unknownSkip name => some s!"Unknown skip_type: {name}"
  | .unknownPreset name =>
      some s!"Unknown preset: {name}. Must be one of ['xor', 'recurrent_loop']"
  | .rowCounts inputs targets => some s!"Got {inputs} input rows but {targets} target rows"
  | .undirected =>
      some "Only directed graphs are supported. Convert with G.to_directed() first."
  | .graphPackageAbsent =>
      some "NetworkX is required for this function. Install it with: pip install networkx"
  | .subscriber name => some name
  | .undecodableBytes | .unencodableText | .malformedDocument | .tooDeep | .mistyped | .badValue
  | .tooLarge | .outOfRange | .deviceRefused | .notStorable | .notDecomposable | .badExtents
  | .noRoom | .absent => none

end Fault

end Plexus
