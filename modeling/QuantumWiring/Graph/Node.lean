import QuantumWiring.Graph.Gate
import QuantumWiring.Json.Record
import QuantumWiring.Text.Blank

/-!
# Nodes

A node of a circuit graph is a qubit source, a gate or a measurement, with an id and a position
on the editor's canvas.  The editor writes the kind as a type name and puts the initial value of
a source, or the operation of a gate, into a data object of its own; `Node.decoder` reads that
shape and `Node.toJson` writes it.
-/

namespace QuantumWiring

/-- The id of a node. -/
abbrev NodeId := String

/-- A place on the canvas. -/
structure Position where
  x : Binary64
  y : Binary64
deriving DecidableEq

namespace Position

def origin : Position := ⟨.zero, .zero⟩

def decoder : Json.Decoder Position :=
  .record "Position"
    (.cons ⟨"x", .real, .required⟩ <| .cons ⟨"y", .real, .required⟩ <| .nil)
    fun (x, y, _) => ⟨x, y⟩

def toJson (p : Position) : Json.Value := .object [("x", .real p.x), ("y", .real p.y)]

end Position

/-- The basis value that a qubit starts in. -/
inductive QubitValue where
  | zero
  | one
deriving DecidableEq

namespace QubitValue

def number : QubitValue → Nat
  | .zero => 0
  | .one => 1

/-- The value as a ket. -/
def ket (v : QubitValue) : String := "|" ++ toString v.number ++ "⟩"

def ofNumber (n : Nat) : Except String QubitValue :=
  match n with
  | 0 => .ok .zero
  | 1 => .ok .one
  | n => .error ("qubit value must be 0 or 1, got " ++ toString n)

def decoder : Json.Decoder QubitValue := Json.Decoder.byte.refine fun b => ofNumber b.toNat

def toJson (v : QubitValue) : Json.Value := .nat v.number

/-- The spellings of a value in the editor, blanks around them left out. -/
def spellings : List (String × QubitValue) :=
  [("0", .zero), ("|0⟩", .zero), ("|0>", .zero), ("1", .one), ("|1⟩", .one), ("|1>", .one)]

/-- The value that the editor has written as a number or in one of its spellings. -/
def ofEditor? : Json.Value → Option QubitValue
  | .number (.integer 0) => some .zero
  | .number (.integer 1) => some .one
  | .string s =>
    let word := String.ofList (Text.trim s.toList)
    (spellings.find? (·.1 = word)).map (·.2)
  | _ => none

end QubitValue

/-- What a node is. -/
inductive NodeKind where
  | qubitSource (value : QubitValue)
  | singleGate (gate : SingleGate)
  | twoGate (gate : TwoGate)
  | measurement
deriving DecidableEq

namespace NodeKind

/-- The type name in the editor's documents. -/
def editorType : NodeKind → String
  | .qubitSource _ => "qubitNode"
  | .singleGate _ => "singleQubitGateNode"
  | .twoGate _ => "twoQubitGateNode"
  | .measurement => "measurementNode"

/-- What the kind is called in messages. -/
def label : NodeKind → String
  | .qubitSource _ => "qubit"
  | .singleGate _ => SingleGate.kindName
  | .twoGate _ => TwoGate.kindName
  | .measurement => "measurement"

/-- The name of a gate's operation. -/
def gateName? : NodeKind → Option String
  | .singleGate g => some g.name
  | .twoGate g => some g.name
  | .qubitSource _ | .measurement => none

/-- What the node does to its lines; a source does nothing. -/
def operation? : NodeKind → Option Operation
  | .singleGate g => some (.single g)
  | .twoGate g => some (.two g)
  | .measurement => some .measurement
  | .qubitSource _ => none

def isSource : NodeKind → Bool
  | .qubitSource _ => true
  | _ => false

def isMeasurement : NodeKind → Bool
  | .measurement => true
  | _ => false

def isGate : NodeKind → Bool
  | .singleGate _ | .twoGate _ => true
  | _ => false

/-- The editor's data object. -/
def data : NodeKind → Json.Value
  | .qubitSource v => .object [("value", v.toJson)]
  | .singleGate g => .object [("operation", g.toJson)]
  | .twoGate g => .object [("operation", g.toJson)]
  | .measurement => .object []

end NodeKind

/-- A node of a circuit graph. -/
structure Node where
  id : NodeId
  kind : NodeKind
  position : Position
deriving DecidableEq

/-- Why an editor's node is refused. -/
inductive NodeFault where
  | unknownType (id : NodeId) (type : String)
  | missingData (id : NodeId) (field : String)
  | unknownOperation (fault : UnknownOperation)
  | invalidValue (id : NodeId) (value : Json.Value)

def NodeFault.message : NodeFault → String
  | .unknownType id type => "Unknown node type '" ++ type ++ "' on node '" ++ id ++ "'"
  | .missingData id field => "Node '" ++ id ++ "' is missing data field '" ++ field ++ "'"
  | .unknownOperation e => e.message
  | .invalidValue id v => "Qubit '" ++ id ++ "' has invalid initial value " ++ v.compact

/-- A node as the editor writes it. -/
structure EditorNode where
  id : NodeId
  type : String
  position : Position
  data : Json.Value

namespace EditorNode

def decoder : Json.Decoder EditorNode :=
  .record "EditorNode"
    (.cons ⟨"id", .string, .required⟩ <|
      .cons ⟨"type", .string, .required⟩ <|
      .cons ⟨"position", Position.decoder, .anywhere .origin⟩ <|
      .cons ⟨"data", .value, .anywhere .null⟩ <| .nil)
    fun (id, type, position, data, _) => ⟨id, type, position, data⟩

/-- A field of the data object. -/
def field (n : EditorNode) (name : String) : Except NodeFault Json.Value :=
  match n.data.field? name with
  | some v => .ok v
  | none => .error (.missingData n.id name)

/-- The name of a gate's operation. -/
def operation (n : EditorNode) : Except NodeFault String := do
  match ← n.field "operation" with
  | .string s => .ok s
  | v => .error (.unknownOperation ⟨"gate", v.compact⟩)

/-- The kind that the type name and the data object tell. -/
def kind (n : EditorNode) : Except NodeFault NodeKind := do
  if n.type = "qubitNode" then
    let v ← n.field "value"
    match QubitValue.ofEditor? v with
    | some v => .ok (.qubitSource v)
    | none => .error (.invalidValue n.id v)
  else if n.type = "singleQubitGateNode" then
    let g ← (SingleGate.parse (← n.operation)).mapError .unknownOperation
    .ok (.singleGate g)
  else if n.type = "twoQubitGateNode" then
    let g ← (TwoGate.parse (← n.operation)).mapError .unknownOperation
    .ok (.twoGate g)
  else if n.type = "measurementNode" then .ok .measurement
  else .error (.unknownType n.id n.type)

/-- The node that the editor has written. -/
def toNode (n : EditorNode) : Except NodeFault Node := do
  let kind ← n.kind
  .ok ⟨n.id, kind, n.position⟩

end EditorNode

namespace Node

/-- The initial value of a source. -/
def qubitValue? (n : Node) : Option QubitValue :=
  match n.kind with
  | .qubitSource v => some v
  | _ => none

/-- A node at the given height, at the left edge of the canvas. -/
def atHeight (id : NodeId) (kind : NodeKind) (y : Binary64) : Node :=
  ⟨id, kind, ⟨.zero, y⟩⟩

def decoder : Json.Decoder Node :=
  EditorNode.decoder.refine fun n => n.toNode.mapError NodeFault.message

def toJson (n : Node) : Json.Value :=
  .object [("id", .string n.id), ("type", .string n.kind.editorType),
    ("position", n.position.toJson), ("data", n.kind.data)]

end Node

end QuantumWiring
