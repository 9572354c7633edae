import Plexus.Compiled.Basic

/-!
# Projections for display

A projection of a graph is what a viewer draws: the neurons with their indices, and the
synapses whose ends are both neurons, with the indices of those ends.
-/

namespace Plexus

/-- A neuron as a viewer draws it. -/
structure ProjectedNode where
  id : Value
  index : Nat
  kind : Kind

/-- A synapse as a viewer draws it. -/
structure ProjectedEdge where
  id : Value
  source : Nat
  target : Nat
  weight : Float

/-- What a viewer draws of a graph. -/
structure Projection where
  nodes : List ProjectedNode
  edges : List ProjectedEdge

namespace Projection

/-- The edge of a synapse, if both its ends are neurons. -/
def edge? (index : IndexTable) (s : Synapse) : Option ProjectedEdge :=
  match index.find? s.source, index.find? s.target with
  | some source, some target => some ⟨s.id, source, target, s.weight⟩
  | _, _ => none

/-- The projection of a graph. -/
def ofGraph (neurons : List Neuron) (synapses : List Synapse) : Projection :=
  { nodes := neurons.zipIdx.map fun (n, i) => ⟨n.id, i, n.kind⟩
    edges := synapses.filterMap (edge? (IndexTable.ofIds (neurons.map Neuron.id))) }

/-- The projection of a graph, or a fault if an identifier is no name. -/
def project (neurons : List Neuron) (synapses : List Synapse) : Except Fault Projection :=
  if Compiled.nameable neurons synapses then .ok (ofGraph neurons synapses) else .error .mistyped

end Projection
end Plexus
