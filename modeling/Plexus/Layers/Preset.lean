import Plexus.Graph.Document

/-!
# Preset networks

Two small networks that are known by name.
-/

namespace Plexus
namespace Preset

/-- A neuron of a preset. -/
def neuron (id : String) (kind : Kind) (bias : Float) : Neuron :=
  ⟨.text id, kind, bias, Neuron.defaultActivation⟩

/-- A synapse of a preset. -/
def synapse (id source target : String) (weight : Float) : Synapse :=
  ⟨.text id, .text source, .text target, weight⟩

/-- Two inputs, two hidden neurons and an output, for a problem that no single layer solves. -/
def xor : List Neuron × List Synapse :=
  ([neuron "in1" .input 0.0, neuron "in2" .input 0.0, neuron "h1" .hidden (-0.5),
    neuron "h2" .hidden 0.5, neuron "out" .output 0.0],
   [synapse "s1" "in1" "h1" 1.0, synapse "s2" "in1" "h2" 1.0, synapse "s3" "in2" "h1" 1.0,
    synapse "s4" "in2" "h2" 1.0, synapse "s5" "h1" "out" 1.0, synapse "s6" "h2" "out" (-1.0)])

/-- A memory cell: a neuron that feeds back into itself. -/
def recurrentLoop : List Neuron × List Synapse :=
  ([neuron "pulse" .input 0.0, neuron "memory" .hidden 0.0, neuron "read" .output 0.0],
   [synapse "feed" "pulse" "memory" 1.0, synapse "loop" "memory" "memory" 0.9,
    synapse "out" "memory" "read" 1.0])

/-- The document of the preset with a name. -/
def document (name : String) : Except Fault Value :=
  let build (g : List Neuron × List Synapse) := Document.build g.1 g.2 Document.currentVersion
  if name = "xor" then .ok (build xor)
  else if name = "recurrent_loop" then .ok (build recurrentLoop)
  else .error (.unknownPreset name)

end Preset
end Plexus
