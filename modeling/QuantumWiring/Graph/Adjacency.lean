import QuantumWiring.Graph.Basic

/-!
# How the wires of a graph meet its nodes

`Adjacency.build` goes over the nodes and then over the wires once.  Each node gets a junction
with the wires that enter and leave it.  An id belongs to the first node that carries it; a later
node with the same id gets no wires and is noted as a duplicate.  A wire with an end that names
no node is dangling: it is noted, and counts toward the degree at its other end, but enters and
leaves nothing.
-/

namespace QuantumWiring

/-- A node with the wires that meet it. -/
structure Junction where
  node : Node
  /-- How many wires name the node as their target, dangling ones included. -/
  inDegree : Nat
  /-- How many wires name the node as their source, dangling ones included. -/
  outDegree : Nat
  incoming : List Edge
  outgoing : List Edge

namespace Junction

/-- A node without wires. -/
def bare (n : Node) : Junction := ⟨n, 0, 0, [], []⟩

def countIn (j : Junction) : Junction := { j with inDegree := j.inDegree + 1 }

def countOut (j : Junction) : Junction := { j with outDegree := j.outDegree + 1 }

def enter (e : Edge) (j : Junction) : Junction := { j with incoming := j.incoming ++ [e] }

def leave (e : Edge) (j : Junction) : Junction := { j with outgoing := j.outgoing ++ [e] }

/-- How many entering wires use a handle. -/
def entering (j : Junction) (h : Handle) : Nat := j.incoming.countP (·.targetHandle = some h)

/-- How many leaving wires use a handle. -/
def leaving (j : Junction) (h : Handle) : Nat := j.outgoing.countP (·.sourceHandle = some h)

end Junction

/-- The order in which the wires of a node are followed: by the handle they leave from, then by
the id of the node they lead to, then by the handle they enter. -/
def Edge.leavesFirst (a b : Edge) : Bool :=
  let (p, q) := (Handle.order a.sourceHandle, Handle.order b.sourceHandle)
  p < q || (p = q &&
    (a.target < b.target || (a.target = b.target &&
      Handle.order a.targetHandle ≤ Handle.order b.targetHandle)))

/-- The wires of a graph, sorted to its nodes. -/
structure Adjacency where
  graph : CircuitGraph
  /-- One junction for each node, in collection order. -/
  junctions : List Junction
  /-- The ids of nodes whose id an earlier node carries, in collection order. -/
  duplicates : List NodeId
  /-- The wires with an end that names no node, in collection order. -/
  dangling : List Edge

/-- Change the first junction whose node has the given id. -/
def updateFirst (id : NodeId) (f : Junction → Junction) : List Junction → List Junction
  | [] => []
  | j :: rest => if j.node.id = id then f j :: rest else j :: updateFirst id f rest

/-- The ids that come again, given those seen before. -/
def repeatedIds (seen : List NodeId) : List Node → List NodeId
  | [] => []
  | n :: rest =>
    if n.id ∈ seen then n.id :: repeatedIds seen rest else repeatedIds (n.id :: seen) rest

namespace Adjacency

/-- The nodes of a graph without its wires. -/
def ofNodes (g : CircuitGraph) : Adjacency :=
  ⟨g, g.nodes.map .bare, repeatedIds [] g.nodes, []⟩

/-- The junction of the node that an id belongs to. -/
def find? (a : Adjacency) (id : NodeId) : Option Junction :=
  a.junctions.find? (·.node.id = id)

/-- The place of that node in collection order. -/
def index? (a : Adjacency) (id : NodeId) : Option Nat :=
  a.junctions.findIdx? (·.node.id = id)

def update (id : NodeId) (f : Junction → Junction) (a : Adjacency) : Adjacency :=
  { a with junctions := updateFirst id f a.junctions }

/-- Add a wire. -/
def attach (a : Adjacency) (e : Edge) : Adjacency :=
  let counted := (a.update e.source .countOut).update e.target .countIn
  if (a.find? e.source).isSome ∧ (a.find? e.target).isSome then
    (counted.update e.source (.leave e)).update e.target (.enter e)
  else { counted with dangling := counted.dangling ++ [e] }

/-- Put the leaving wires of every node in the order in which they are followed. -/
def sortLeaving (a : Adjacency) : Adjacency :=
  { a with junctions := a.junctions.map fun j =>
      { j with outgoing := j.outgoing.mergeSort Edge.leavesFirst } }

/-- Sort the wires of a graph to its nodes. -/
def build (g : CircuitGraph) : Adjacency := (g.edges.foldl attach (ofNodes g)).sortLeaving

/-- The junctions in the order of ids, each with its place in collection order. -/
def byId (a : Adjacency) : List (Junction × Nat) :=
  a.junctions.zipIdx.mergeSort fun p q => p.1.node.id ≤ q.1.node.id

/-- The junctions in the order of ids. -/
def sorted (a : Adjacency) : List Junction := a.byId.map (·.1)

end Adjacency

end QuantumWiring
