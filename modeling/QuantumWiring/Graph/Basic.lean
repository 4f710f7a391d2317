import QuantumWiring.Graph.Edge

/-!
# Circuit graphs

A circuit graph is what the editor exports: nodes and wires, each in collection order.  Nothing
is required of them; ids may repeat and wires may lead nowhere.  The qubit sources have a second
order, from top to bottom of the canvas, which numbers the lines of the circuit.
-/

namespace QuantumWiring

/-- A snapshot of the editor's canvas. -/
structure CircuitGraph where
  nodes : List Node
  edges : List Edge
deriving DecidableEq

/-- Whether `a` comes before or with `b` from top to bottom: by height in the total order of bit
patterns, then by id. -/
def Node.isAbove (a b : Node) : Bool :=
  a.position.y.rank < b.position.y.rank ||
    (a.position.y.rank = b.position.y.rank && a.id ≤ b.id)

namespace CircuitGraph

def empty : CircuitGraph := ⟨[], []⟩

/-- The first node with the given id. -/
def node? (g : CircuitGraph) (id : NodeId) : Option Node := g.nodes.find? (·.id = id)

/-- The qubit sources in collection order. -/
def sources (g : CircuitGraph) : List Node := g.nodes.filter (·.kind.isSource)

/-- The qubit sources from top to bottom. -/
def orderedSources (g : CircuitGraph) : List Node := g.sources.mergeSort Node.isAbove

def measurements (g : CircuitGraph) : List Node := g.nodes.filter (·.kind.isMeasurement)

def addNode (g : CircuitGraph) (n : Node) : CircuitGraph := { g with nodes := g.nodes ++ [n] }

def addEdge (g : CircuitGraph) (e : Edge) : CircuitGraph := { g with edges := g.edges ++ [e] }

def decoder : Json.Decoder CircuitGraph :=
  .record "CircuitGraph"
    (.cons ⟨"nodes", .list Node.decoder, .anywhere []⟩ <|
      .cons ⟨"edges", .list Edge.decoder, .anywhere []⟩ <| .nil)
    fun (nodes, edges, _) => ⟨nodes, edges⟩

def toJson (g : CircuitGraph) : Json.Value :=
  .object [("nodes", .ofList Node.toJson g.nodes), ("edges", .ofList Edge.toJson g.edges)]

/-- Load the editor's document. -/
def ofText (s : String) : Except Json.Problem CircuitGraph := decoder.ofText s

/-- The editor's document of the graph. -/
def text (g : CircuitGraph) : String := g.toJson.pretty

end CircuitGraph

end QuantumWiring
