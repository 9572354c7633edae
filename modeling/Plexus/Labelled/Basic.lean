import Plexus.Value.Record

/-!
# Labelled graphs

A general graph, as graph libraries exchange it: named nodes and edges between them, all
with labels.  Nodes are listed in the order in which they came in, and edges by their
source, then by the order in which the targets of that source came in.  A node or edge
that comes in again keeps its place, and its new labels are added to the old ones.

Edges between the same two nodes are told apart by a key.  In a graph without parallel
edges they all have the same one; in a graph with them the label `key` gives it, and an
edge without that label gets a key of its own.
-/

namespace Plexus

/-- The labels of a node or an edge. -/
abbrev Labels := List (String × Value)

/-- Adds labels to others; a label that is already there is overwritten. -/
def Labels.merge (old new : Labels) : Labels :=
  new.foldl (fun labels f => Value.setField labels f.1 f.2) old

/-- The edges that lead to a target: keys and labels. -/
abbrev Bundle := List (Value × Labels)

namespace Bundle

/-- Whether there is an edge with a key. -/
def has (b : Bundle) (key : Value) : Bool := b.any fun e => e.1.same key

/-- Puts in an edge; one with the same key takes over its labels. -/
def put (key : Value) (labels : Labels) : Bundle → Bundle
  | [] => [(key, labels)]
  | (k, old) :: rest =>
      if k.same key then (k, old.merge labels) :: rest else (k, old) :: put key labels rest

/-- The number of edges, or else the next number that is no key yet. -/
def freshKey (b : Bundle) : Value :=
  let numbers := (List.range (b.length + 1)).map fun i => Value.int (b.length + i : Nat)
  (numbers.find? fun key => !b.has key).getD .null

end Bundle

/-- A node and the edges that start there. -/
structure LabelledNode where
  name : Value
  labels : Labels
  /-- The targets, each with the edges that lead there. -/
  targets : List (Value × Bundle)

/-- An edge of a graph. -/
structure LabelledEdge where
  source : Value
  target : Value
  labels : Labels

/-- A labelled graph. -/
structure LabelledGraph where
  directed : Bool
  /-- Whether edges between the same two nodes are kept apart. -/
  parallel : Bool
  nodes : List LabelledNode

namespace LabelledGraph

/-- The graph without nodes. -/
def empty (directed parallel : Bool) : LabelledGraph := ⟨directed, parallel, []⟩

/-- Whether there is a node of a name. -/
def has (g : LabelledGraph) (name : Value) : Bool :=
  name.isScalar && g.nodes.any fun n => n.name.same name

/-- Refuses what cannot name a node. -/
def checkName : Value → Except Fault Unit
  | .null => .error .badValue
  | .list _ => .error .mistyped
  | .object _ => .error .mistyped
  | _ => .ok ()

/-- Puts a node into a list of nodes. -/
def putNode (labels : Labels) (name : Value) : List LabelledNode → List LabelledNode
  | [] => [⟨name, labels, []⟩]
  | n :: rest =>
      if n.name.same name then { n with labels := n.labels.merge labels } :: rest
      else n :: putNode labels name rest

/-- Puts an edge into the list of targets of its source; without a key it gets a fresh one. -/
def putTarget (key : Option Value) (labels : Labels) (target : Value) :
    List (Value × Bundle) → List (Value × Bundle)
  | [] => [(target, Bundle.put (key.getD (Bundle.freshKey [])) labels [])]
  | (name, edges) :: rest =>
      if name.same target then (name, edges.put (key.getD edges.freshKey) labels) :: rest
      else (name, edges) :: putTarget key labels target rest

/-- Puts an edge into the node that it starts from. -/
def putEdge (key : Option Value) (labels : Labels) (source target : Value) :
    List LabelledNode → List LabelledNode
  | [] => []
  | n :: rest =>
      if n.name.same source then { n with targets := putTarget key labels target n.targets } :: rest
      else n :: putEdge key labels source target rest

/-- The label that gives the key of an edge in a graph with parallel edges. -/
def keyLabel : String := "key"

/-- The key of an edge, if it has one, and its other labels. -/
def takeKey (parallel : Bool) (labels : Labels) : Except Fault (Option Value × Labels) :=
  if !parallel then .ok (some (.int 0), labels)
  else
    let others := labels.filter fun f => f.1 != keyLabel
    match Value.optional labels keyLabel .null with
    | .null => .ok (none, others)
    | key => if key.isScalar then .ok (some key, others) else .error .mistyped

/-- The names that no label of a node can have: they stand for the node itself. -/
def nodeWords : List String := ["self", "node_for_adding"]

/-- The names that no label of an edge can have: they stand for the edge's ends. -/
def edgeWords (parallel : Bool) : List String :=
  "self" :: if parallel then ["u_for_edge", "v_for_edge"] else ["u_of_edge", "v_of_edge"]

/-- Refuses labels with names that stand for something else. -/
def checkLabels (taken : List String) (labels : Labels) : Except Fault Unit :=
  if labels.any fun f => taken.contains f.1 then .error .mistyped else .ok ()

/-- Adds a node. -/
def addNode (name : Value) (labels : Labels) (g : LabelledGraph) : Except Fault LabelledGraph := do
  checkLabels nodeWords labels
  checkName name
  return { g with nodes := putNode labels name g.nodes }

/-- Adds an edge, and its ends as far as they are missing: first the source, then the target. -/
def addEdge (source target : Value) (labels : Labels) (g : LabelledGraph) :
    Except Fault LabelledGraph := do
  checkLabels (edgeWords g.parallel) labels
  let g ← g.addNode source []
  let g ← g.addNode target []
  let (key, labels) ← takeKey g.parallel labels
  return { g with nodes := putEdge key labels source target g.nodes }

/-- The edges that start at a node. -/
def edgesOf (n : LabelledNode) : List LabelledEdge :=
  n.targets.flatMap fun (target, edges) => edges.map fun e => ⟨n.name, target, e.2⟩

/-- All edges. -/
def edges (g : LabelledGraph) : List LabelledEdge := g.nodes.flatMap edgesOf

end LabelledGraph
end Plexus
