import QuantumWiring.Compile.Schedule
import QuantumWiring.Stabilizer.Tableau

/-!
# Compiled circuits

A compiled circuit is a list of operations on numbered lines, together with the qubits that start
the lines.  It is compiled for one endpoint of a simulation engine: the circuit endpoint takes
measurements, the stabilizer endpoint does not.  From it the requests to the two endpoints are
made.  All of these are interchange formats, each with its decoder and its encoding.
-/

namespace QuantumWiring

/-- The endpoint of an engine that a circuit is compiled for. -/
inductive EndpointMode where
  | circuit
  | stabilizer
deriving DecidableEq

namespace EndpointMode

def all : List EndpointMode := [.circuit, .stabilizer]

def name : EndpointMode → String
  | .circuit => "circuit"
  | .stabilizer => "stabilizer"

/-- Whether measurements are part of the circuit. -/
def includesMeasurements : EndpointMode → Bool
  | .circuit => true
  | .stabilizer => false

/-- Look a mode up by its name in any case; the error is the text of the problem. -/
def parse (s : String) : Except String EndpointMode :=
  let word := String.ofList (s.toList.map Char.toLower)
  match all.find? (·.name = word) with
  | some m => .ok m
  | none =>
    .error ("unknown endpoint mode '" ++ word ++ "', expected 'circuit' or 'stabilizer'")

def decoder : Json.Decoder EndpointMode := Json.Decoder.variant (all.map fun m => (m.name, m))

def toJson (m : EndpointMode) : Json.Value := .string m.name

end EndpointMode

/-- The qubit that starts a line. -/
structure QubitDescriptor where
  index : Line
  id : NodeId
  value : QubitValue
deriving DecidableEq

namespace QubitDescriptor

def decoder : Json.Decoder QubitDescriptor :=
  .record "QubitDescriptor"
    (.cons ⟨"index", .word, .required⟩ <|
      .cons ⟨"id", .string, .required⟩ <|
      .cons ⟨"value", QubitValue.decoder, .required⟩ <| .nil)
    fun (index, id, value, _) => ⟨index, id, value⟩

def toJson (q : QubitDescriptor) : Json.Value :=
  .object [("index", .nat q.index), ("id", .string q.id), ("value", q.value.toJson)]

end QubitDescriptor

/-- An operation of a compiled circuit. -/
structure OperationSpec where
  operation : Operation
  /-- The lines it takes, in the order of its slots. -/
  inputs : List Line
deriving DecidableEq

namespace OperationSpec

def decoder : Json.Decoder OperationSpec :=
  .record "OperationSpec"
    (.cons ⟨"operation", Operation.decoder, .required⟩ <|
      .cons ⟨"inputs", .list .word, .required⟩ <| .nil)
    fun (operation, inputs, _) => ⟨operation, inputs⟩

def toJson (op : OperationSpec) : Json.Value :=
  .object [("operation", op.operation.toJson), ("inputs", .ofList .nat op.inputs)]

/-- The operation with the names of its lines. -/
def text (op : OperationSpec) : String :=
  op.operation.name ++ " " ++ ", ".intercalate (op.inputs.map lineName)

end OperationSpec

/-- The outcome of a compilation. -/
structure CompiledCircuit where
  mode : EndpointMode
  /-- The qubits in the order of their lines. -/
  qubits : List QubitDescriptor
  /-- The operations in order. -/
  operations : List OperationSpec
deriving DecidableEq

/-- A qubit of a request. -/
structure QubitNode where
  id : NodeId
  value : QubitValue
deriving DecidableEq

namespace QubitNode

def decoder : Json.Decoder QubitNode :=
  .record "QubitNode"
    (.cons ⟨"id", .string, .required⟩ <|
      .cons ⟨"value", QubitValue.decoder, .required⟩ <| .nil)
    fun (id, value, _) => ⟨id, value⟩

def toJson (q : QubitNode) : Json.Value :=
  .object [("id", .string q.id), ("value", q.value.toJson)]

end QubitNode

/-- The request to the circuit endpoint. -/
structure CircuitRequest where
  qubitNodes : List QubitNode
  operations : List OperationSpec
deriving DecidableEq

namespace CircuitRequest

def decoder : Json.Decoder CircuitRequest :=
  .record "CircuitRequest"
    (.cons ⟨"qubitNodes", .list QubitNode.decoder, .required⟩ <|
      .cons ⟨"operations", .list OperationSpec.decoder, .required⟩ <| .nil)
    fun (qubitNodes, operations, _) => ⟨qubitNodes, operations⟩

def toJson (r : CircuitRequest) : Json.Value :=
  .object [("qubitNodes", .ofList QubitNode.toJson r.qubitNodes),
    ("operations", .ofList OperationSpec.toJson r.operations)]

end CircuitRequest

/-- The request to the stabilizer endpoint. -/
structure StabilizerRequest where
  numQubits : Nat
  operations : List OperationSpec
  /-- The state to start from; the engine has its own if there is none. -/
  initialTableau : Option Tableau
deriving DecidableEq

namespace StabilizerRequest

def decoder : Json.Decoder StabilizerRequest :=
  .record "StabilizerRequest"
    (.cons ⟨"numQubits", .size, .required⟩ <|
      .cons ⟨"operations", .list OperationSpec.decoder, .required⟩ <|
      .cons ⟨"initialTableau", .optional Tableau.decoder, .inObject none⟩ <| .nil)
    fun (numQubits, operations, initialTableau, _) => ⟨numQubits, operations, initialTableau⟩

def toJson (r : StabilizerRequest) : Json.Value :=
  .object [("numQubits", .nat r.numQubits),
    ("operations", .ofList OperationSpec.toJson r.operations),
    ("initialTableau", .ofOption Tableau.toJson r.initialTableau)]

end StabilizerRequest

/-- Why a tableau cannot start a circuit. -/
inductive TableauRejection where
  | invalid (fault : TableauFault)
  | width (expected found : Nat)
deriving DecidableEq

namespace CompiledCircuit

def numQubits (c : CompiledCircuit) : Nat := c.qubits.length

/-- The operations that are not measurements. -/
def unitaries (c : CompiledCircuit) : List OperationSpec :=
  c.operations.filter (!·.operation.isMeasurement)

def gateCount (c : CompiledCircuit) : Nat := c.unitaries.length

def decoder : Json.Decoder CompiledCircuit :=
  .record "CompiledCircuit"
    (.cons ⟨"mode", EndpointMode.decoder, .required⟩ <|
      .cons ⟨"qubits", .list QubitDescriptor.decoder, .required⟩ <|
      .cons ⟨"operations", .list OperationSpec.decoder, .required⟩ <| .nil)
    fun (mode, qubits, operations, _) => ⟨mode, qubits, operations⟩

def toJson (c : CompiledCircuit) : Json.Value :=
  .object [("mode", c.mode.toJson), ("qubits", .ofList QubitDescriptor.toJson c.qubits),
    ("operations", .ofList OperationSpec.toJson c.operations)]

/-- The request to the circuit endpoint. -/
def circuitRequest (c : CompiledCircuit) : CircuitRequest :=
  ⟨c.qubits.map fun q => ⟨q.id, q.value⟩, c.operations⟩

/-- Check that a tableau is well formed and acts on the circuit's qubits. -/
def checkTableau (c : CompiledCircuit) (t : Tableau) : Except TableauRejection Unit := do
  t.check.mapError .invalid
  if t.width ≠ c.numQubits then throw (.width c.numQubits t.width)

/-- The request to the stabilizer endpoint, which takes no measurement. -/
def stabilizerRequest (c : CompiledCircuit) (initial : Option Tableau) :
    Except TableauRejection StabilizerRequest := do
  match initial with
  | some t => c.checkTableau t
  | none => pure ()
  .ok ⟨c.numQubits, c.unitaries, initial⟩

/-- The circuit of scheduled operations on the lines that the given nodes start; a node without
an initial value starts in zero. -/
def emit (ops : List ScheduledOp) (sources : List Node) (mode : EndpointMode) :
    CompiledCircuit :=
  ⟨mode,
    sources.zipIdx.map fun (n, line) => ⟨line, n.id, n.qubitValue?.getD .zero⟩,
    (ops.filter fun op => mode.includesMeasurements || !op.operation.isMeasurement).map
      fun op => ⟨op.operation, op.inputs⟩⟩

end CompiledCircuit

end QuantumWiring
