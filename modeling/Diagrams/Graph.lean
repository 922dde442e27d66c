/-
Diagrams as graphs whose nodes are found by name.

A graph keeps every node and every edge that was ever made in a pool, and knows them by their
number there.  Being made and being shown are two things: `members` and `edges` list what the
diagram shows, in order, and a node may be listed twice or not at all.  A node can be changed in
the pool; whoever refers to it by its number sees the change.

The registry is told about a name when a node is added or removed, and not when a node in the
pool is renamed.
-/
import Diagrams.Registry

namespace Diagrams

/-- Things with a name. -/
class Named (ν : Type) where
  /-- The name. -/
  name : ν → Text

/-- An edge between two nodes, given by their numbers. -/
structure Edge (ε : Type) where
  /-- Where the edge starts. -/
  source : Nat
  /-- Where the edge ends. -/
  target : Nat
  /-- What the edge says about its ends. -/
  label : ε
  deriving DecidableEq, Repr

/-- Whether a node is an end of the edge. -/
def Edge.involves {ε : Type} (edge : Edge ε) (node : Nat) : Bool :=
  edge.source == node || edge.target == node

/-- A diagram with nodes `ν` and edges that carry `ε`. -/
structure Graph (ν ε : Type) where
  /-- The title of the diagram. -/
  title : Text
  /-- All nodes ever made. -/
  pool : List ν := []
  /-- All edges ever made. -/
  edgePool : List (Edge ε) := []
  /-- The nodes that the diagram shows. -/
  members : List Nat := []
  /-- The edges that the diagram shows. -/
  edges : List Nat := []
  /-- Which node a name stands for. -/
  registry : Registry Nat := {}

namespace Graph

variable {ν ε : Type}

/-- The node with a number. -/
def node? (graph : Graph ν ε) (node : Nat) : Option ν := graph.pool[node]?

/-- The edge with a number. -/
def edge? (graph : Graph ν ε) (edge : Nat) : Option (Edge ε) := graph.edgePool[edge]?

/-- The nodes that the diagram shows. -/
def nodes (graph : Graph ν ε) : List ν := graph.members.filterMap graph.node?

/-- The edges that the diagram shows. -/
def shownEdges (graph : Graph ν ε) : List (Edge ε) := graph.edges.filterMap graph.edge?

/-- The name of the node with a number. -/
def nameOf [Named ν] (graph : Graph ν ε) (node : Nat) : Text :=
  ((graph.node? node).map Named.name).getD []

/-! ### Nodes -/

/-- The number that the next node gets. -/
def nextNode (graph : Graph ν ε) : Nat := graph.pool.length

/-- Make a node, without showing it. -/
def create (graph : Graph ν ε) (node : ν) : Graph ν ε := { graph with pool := graph.pool ++ [node] }

/-- Show a node; its name now stands for it. -/
def add [Named ν] (graph : Graph ν ε) (node : Nat) : Graph ν ε :=
  { graph with
    members := graph.members ++ [node]
    registry := graph.registry.register (graph.nameOf node) (some node) }

/-- Make a node and show it. -/
def insert [Named ν] (graph : Graph ν ε) (node : ν) : Graph ν ε :=
  (graph.create node).add graph.nextNode

/-- Change a node in the pool. -/
def modify (graph : Graph ν ε) (node : Nat) (change : ν → ν) : Graph ν ε :=
  { graph with pool := graph.pool.modify node change }

/-- The node that a name stands for. -/
def lookup? (graph : Graph ν ε) (name : Text) : Option Nat := graph.registry.get? name

/-- Whether a name stands for a node. -/
def has (graph : Graph ν ε) (name : Text) : Bool := graph.registry.contains name

/-- The last of the shown nodes whose name counts as the given one. -/
def latestNamed? [Named ν] (graph : Graph ν ε) (name : Text) : Option Nat :=
  graph.members.reverse.find? fun node =>
    graph.registry.key (graph.nameOf node) = graph.registry.key name

/-- Stop showing a node, at its first place, and every edge that ends at it.  If its name stood
for it, the name falls back to the latest node of that name that is still shown. -/
def remove [Named ν] (graph : Graph ν ε) (node : Nat) : Graph ν ε :=
  if graph.members.contains node then
    let name := graph.nameOf node
    let rest : Graph ν ε :=
      { graph with
        members := graph.members.erase node
        edges := graph.edges.filter fun edge => !(graph.edge? edge).any (·.involves node)
        registry := graph.registry.unregister name (some node) }
    if rest.has name then rest
    else match rest.latestNamed? name with
      | some other =>
        { rest with registry := rest.registry.register (rest.nameOf other) (some other) }
      | none => rest
  else graph

/-! ### Edges -/

/-- The number that the next edge gets. -/
def nextEdge (graph : Graph ν ε) : Nat := graph.edgePool.length

/-- Make an edge, without showing it. -/
def createEdge (graph : Graph ν ε) (edge : Edge ε) : Graph ν ε :=
  { graph with edgePool := graph.edgePool ++ [edge] }

/-- Show an edge. -/
def addEdge (graph : Graph ν ε) (edge : Nat) : Graph ν ε :=
  { graph with edges := graph.edges ++ [edge] }

/-- Make an edge and show it. -/
def connect (graph : Graph ν ε) (edge : Edge ε) : Graph ν ε :=
  (graph.createEdge edge).addEdge graph.nextEdge

/-- Stop showing an edge, at its first place. -/
def removeEdge (graph : Graph ν ε) (edge : Nat) : Graph ν ε :=
  { graph with edges := graph.edges.erase edge }

/-- The shown edges that end at a node. -/
def edgesAt (graph : Graph ν ε) (node : Nat) : List (Edge ε) :=
  graph.shownEdges.filter (·.involves node)

/-- Show nothing any more. -/
def clear (graph : Graph ν ε) : Graph ν ε :=
  { graph with members := [], edges := [], registry := graph.registry.clear }

end Graph

end Diagrams
