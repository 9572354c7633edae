import Plexus.Graph.Neuron
import Plexus.Graph.Synapse
import Plexus.Labelled.Basic

/-!
# Networks as labelled graphs

A network becomes a directed graph whose nodes are labelled with the parts of the neurons
and whose edges are labelled with those of the synapses.  Of several synapses between the
same two neurons the last one counts, as it does when the network is compiled.  The way
back names everything by texts and numbers the edges that have no name.
-/

namespace Plexus
namespace LabelledGraph

/-- Refuses a conversion unless the package for it is installed. -/
def requirePackage (installed : Bool) : Except Fault Unit :=
  if installed then .ok () else .error .graphPackageAbsent

/-- The labels of a neuron. -/
def neuronLabels (n : Neuron) : Labels :=
  [("kind", .text n.kind.tag), ("bias", .real n.bias), ("activation", n.activation)]

/-- The labels of a synapse. -/
def synapseLabels (s : Synapse) : Labels := [("id", s.id), ("weight", .real s.weight)]

/-- Adds the edge of a synapse, unless one of its ends is no node. -/
def addSynapse (g : LabelledGraph) (s : Synapse) : Except Fault LabelledGraph :=
  if g.has s.source && g.has s.target then g.addEdge s.source s.target (synapseLabels s) else .ok g

/-- The directed graph of a network. -/
def ofNetwork (neurons : List Neuron) (synapses : List Synapse) : Except Fault LabelledGraph := do
  let g ← neurons.foldlM (fun g n => g.addNode n.id (neuronLabels n)) (empty true false)
  synapses.foldlM addSynapse g

/-- The neuron of a node; `kind` and `activation` are for nodes that have no such label. -/
def toNeuron (kind activation : Value) (n : LabelledNode) : Except Fault Neuron :=
  Neuron.make (.text n.name.display) (Value.optional n.labels "kind" kind)
    (Value.optional n.labels "bias" (.real 0.0)) (Value.optional n.labels "activation" activation)

/-- The synapse of the edge with a number. -/
def toSynapse (edge : LabelledEdge × Nat) : Except Fault Synapse :=
  let (e, i) := edge
  let id := Value.optional e.labels "id" (.text s!"e{i}")
  Synapse.make (.text id.display) (.text e.source.display) (.text e.target.display)
    (Value.optional e.labels "weight" (.real 1.0))

/-- The network of a directed graph. -/
def toNetwork (kind activation : Value) (g : LabelledGraph) :
    Except Fault (List Neuron × List Synapse) := do
  if !g.directed then throw .undirected
  let neurons ← g.nodes.mapM (toNeuron kind activation)
  let synapses ← g.edges.zipIdx.mapM toSynapse
  return (neurons, synapses)

end LabelledGraph
end Plexus
