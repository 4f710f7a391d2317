import QuantumWiring.Graph.Node

/-!
# Edges

An edge is a wire from one node to another.  At a gate on two qubits a handle says which of the
two lines the wire carries: an input handle where it enters, an output handle where it leaves.
-/

namespace QuantumWiring

/-- A terminal of a gate on two qubits. -/
inductive Handle where
  | input1
  | input2
  | output1
  | output2
deriving DecidableEq

namespace Handle

/-- The handles in their order. -/
def all : List Handle := [.input1, .input2, .output1, .output2]

def name : Handle → String
  | .input1 => "input1"
  | .input2 => "input2"
  | .output1 => "output1"
  | .output2 => "output2"

/-- The place of the handle's line among the two lines of its gate. -/
def slot : Handle → Nat
  | .input1 | .output1 => 0
  | .input2 | .output2 => 1

def isInput : Handle → Bool
  | .input1 | .input2 => true
  | .output1 | .output2 => false

def decoder : Json.Decoder Handle := Json.Decoder.variant (all.map fun h => (h.name, h))

def toJson (h : Handle) : Json.Value := .string h.name

/-- The place of a wire end in the order of handles; an end without handle comes first. -/
def order : Option Handle → Nat
  | none => 0
  | some .input1 => 1
  | some .input2 => 2
  | some .output1 => 3
  | some .output2 => 4

end Handle

/-- A wire between two nodes. -/
structure Edge where
  id : Option String
  source : NodeId
  target : NodeId
  sourceHandle : Option Handle
  targetHandle : Option Handle
deriving DecidableEq

namespace Edge

/-- A wire without id and handles. -/
def plain (source target : NodeId) : Edge := ⟨none, source, target, none, none⟩

def decoder : Json.Decoder Edge :=
  .record "Edge"
    (.cons ⟨"id", .optional .string, .anywhere none⟩ <|
      .cons ⟨"source", .string, .required⟩ <|
      .cons ⟨"target", .string, .required⟩ <|
      .cons ⟨"sourceHandle", .optional Handle.decoder, .anywhere none⟩ <|
      .cons ⟨"targetHandle", .optional Handle.decoder, .anywhere none⟩ <| .nil)
    fun (id, source, target, sourceHandle, targetHandle, _) =>
      ⟨id, source, target, sourceHandle, targetHandle⟩

/-- A field that is left out where there is nothing to write. -/
def optionalField {α : Type} (name : String) (encode : α → Json.Value) :
    Option α → List (String × Json.Value)
  | none => []
  | some a => [(name, encode a)]

def toJson (e : Edge) : Json.Value :=
  .object (optionalField "id" .string e.id ++
    [("source", .string e.source), ("target", .string e.target)] ++
    optionalField "sourceHandle" Handle.toJson e.sourceHandle ++
    optionalField "targetHandle" Handle.toJson e.targetHandle)

end Edge

end QuantumWiring
