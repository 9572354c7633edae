import Plexus.Attempt
import Plexus.Graph.Neuron
import Plexus.Graph.Synapse
import Plexus.Random.Draws

/-!
# Building networks layer by layer

A builder collects layers of neurons and connections between them.  The first layer is
made of input neurons, the last one of output neurons, and those between are hidden.
Weights are drawn when the network is built, one per connection in order.
-/

namespace Plexus

/-- Layers and connections, and the source of random draws. -/
structure Builder (σ : Type) where
  activation : Value
  /-- Weights are drawn from minus this number to this number. -/
  scale : Except Fault Float
  source : σ
  layers : List (List String)
  edges : Array (String × String)

namespace Builder

variable {σ : Type} [Draws σ]

/-- A builder with nothing in it. -/
def start (activation : Value) (scale : Except Fault Float) (source : σ) : Builder σ :=
  { activation, scale, source, layers := [], edges := #[] }

/-- The activation of a builder that is given none. -/
def defaultActivation : Value := .text "tanh"

/-- The weight scale of a builder that is given none. -/
def defaultScale : Except Fault Float := .ok 0.5

/-- The identifiers of a layer of neurons. -/
def layerIds (layer size : Nat) : List String :=
  (List.range size).map fun i => s!"L{layer}_{i}"

/-- Adds a layer and returns its identifiers. -/
def addLayer (size : Nat) (b : Builder σ) : List String × Builder σ :=
  let ids := layerIds b.layers.length size
  (ids, { b with layers := b.layers ++ [ids] })

/-- All pairs of a neuron of one layer and a neuron of another. -/
def pairs (source target : List String) : List (String × String) :=
  source.flatMap fun s => target.map fun t => (s, t)

/-- Adds connections. -/
def connect (edges : List (String × String)) (b : Builder σ) : Builder σ :=
  { b with edges := b.edges.appendList edges }

/-- Connects every neuron of one layer with every neuron of another. -/
def connectFull (source target : List String) (b : Builder σ) : Builder σ :=
  b.connect (pairs source target)

/--
Adds a connection with a probability.  The probability is looked at only after the draw; it
may be any number, but it must be one.
-/
def connectMaybe (probability : Value) (edge : String × String) : Attempt (Builder σ) Unit := do
  let (u, source) := Draws.unit (← get).source
  modify fun b => { b with source }
  let p ← Attempt.of probability.toNumber
  if (Number.real u).less p then modify (connect [edge])

/-- Keeps each connection between two layers with a probability. -/
def connectSparse (source target : List String) (probability : Value) :
    Attempt (Builder σ) Unit :=
  (pairs source target).forM (connectMaybe probability)

/-- Connects the neurons of two layers that have the same place. -/
def connectAligned (source target : List String) (b : Builder σ) : Builder σ :=
  b.connect (source.zip target)

/-- Connects two layers that are not neighbours, in a way that is given by name. -/
def connectSkip (source target : List String) (kind : String) (b : Builder σ) :
    Except Fault (Builder σ) :=
  if kind = "one_to_one" then .ok (b.connectAligned source target)
  else if kind = "full" then .ok (b.connectFull source target)
  else .error (.unknownSkip kind)

/--
Connects neurons of one layer with a probability.  A neuron is connected to itself only
if self-loops are asked for, and then always.
-/
def connectRecurrent (layer : List String) (probability : Value) (selfLoops : Bool) :
    Attempt (Builder σ) Unit :=
  (pairs layer layer).forM fun edge =>
    if edge.1 = edge.2 then if selfLoops then modify (connect [edge]) else pure ()
    else connectMaybe probability edge

/-- The kind of the neurons of a layer. -/
def kindOf (count layer : Nat) : Kind :=
  if layer = 0 then .input else if layer + 1 = count then .output else .hidden

/-- The neurons of all layers. -/
def neurons (b : Builder σ) : Except Fault (List Neuron) :=
  let places := b.layers.zipIdx.flatMap fun (ids, layer) => ids.map fun id => (id, layer)
  places.mapM fun (id, layer) =>
    Neuron.make (.text id) (.text (kindOf b.layers.length layer).tag) (.real 0.0) b.activation

/-- Draws a weight for each connection; `i` is the number of the first one. -/
def drawWeights (scale : Float) : Nat → List (String × String) → σ → List Synapse × σ
  | _, [], s => ([], s)
  | i, (source, target) :: rest, s =>
      let (weight, s) := Draws.between (-scale) scale s
      let (synapses, s) := drawWeights scale (i + 1) rest s
      (⟨.text s!"s{i}", .text source, .text target, weight⟩ :: synapses, s)

/-- Whether the sign of a number is a minus; zero may have one too. -/
def hasMinus (x : Float) : Bool := 2 ^ 63 ≤ x.toBits.toNat

/-- Checks that weights can be drawn from minus a number to this number. -/
def checkScale (scale : Float) : Except Fault Unit :=
  let range := scale - -scale
  if !range.isFinite then .error .tooLarge else if hasMinus range then .error .badValue else .ok ()

/-- A layer by its place; negative places count from the end. -/
def layerAt (b : Builder σ) (i : Int) : Except Fault (List String) :=
  let place := if i < 0 then i + b.layers.length else i
  if place < 0 then .error .outOfRange
  else match b.layers[place.toNat]? with
    | some ids => .ok ids
    | none => .error .outOfRange

/-- Builds the network.  Building again draws new weights. -/
def build : Attempt (Builder σ) (List Neuron × List Synapse) := do
  let b ← get
  let neurons ← Attempt.of b.neurons
  let scale ← Attempt.of b.scale
  Attempt.of (checkScale scale)
  let (synapses, source) := drawWeights scale 0 b.edges.toList b.source
  set { b with source }
  return (neurons, synapses)

end Builder
end Plexus
