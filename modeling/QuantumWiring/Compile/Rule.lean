import QuantumWiring.Compile.Violation
import QuantumWiring.Graph.Adjacency
import QuantumWiring.Text.Quoted

/-!
# Rules of well-formedness

The nine rules that a graph has to keep before it is compiled.  A rule looks at the junctions in
the order of ids, so the violation that it reports does not depend on collection order.  A list
of rules is checked from the front, and the first violation ends the check; `Rule.standard` is
the order in which the editor explains problems.
-/

namespace QuantumWiring

/-- A rule of well-formedness. -/
inductive Rule where
  /-- There is a qubit. -/
  | qubitPresence
  /-- There are as many measurements as qubits. -/
  | measurementParity
  /-- One wire leaves each qubit. -/
  | qubitFanOut
  /-- As many wires enter and leave a gate as it has lines. -/
  | gateDegree
  /-- One wire enters each measurement. -/
  | measurementFanIn
  /-- Every gate has a wire. -/
  | noOrphanGates
  /-- Ids are unique and wires have both ends. -/
  | wireEndpoints
  /-- No wire enters a qubit or leaves a measurement. -/
  | terminalDirection
  /-- Each terminal of a gate on two qubits has one wire. -/
  | handleAssignment
deriving DecidableEq

namespace Rule

/-- The rules in the order in which they are checked. -/
def standard : List Rule :=
  [.qubitPresence, .measurementParity, .qubitFanOut, .gateDegree, .measurementFanIn,
    .noOrphanGates, .wireEndpoints, .terminalDirection, .handleAssignment]

def name : Rule → String
  | .qubitPresence => "qubit_presence"
  | .measurementParity => "measurement_parity"
  | .qubitFanOut => "qubit_fan_out"
  | .gateDegree => "gate_degree"
  | .measurementFanIn => "measurement_fan_in"
  | .noOrphanGates => "no_orphan_gates"
  | .wireEndpoints => "wire_endpoints"
  | .terminalDirection => "terminal_direction"
  | .handleAssignment => "handle_assignment"

def ofName? (s : String) : Option Rule := standard.find? (·.name = s)

/-- A gate with the degrees that its arity asks for. -/
def gateDegrees (arity : Nat) (name : String) (j : Junction) : Option Violation :=
  if j.inDegree ≠ arity then
    some (.gateInputs j.node.id j.node.kind.label name arity j.inDegree)
  else if j.outDegree ≠ arity then
    some (.gateOutputs j.node.id j.node.kind.label name arity j.outDegree)
  else none

/-- The first terminal of a gate on two qubits that does not have one wire. -/
def handleUse (j : Junction) (gate : TwoGate) : Option Violation :=
  Handle.all.findSome? fun h =>
    let found := if h.isInput then j.entering h else j.leaving h
    if found ≠ 1 then some (.handleUse j.node.id gate.name h found) else none

/-- Whether one wire comes before another by its source, then by its target. -/
def endsBefore (a b : Edge) : Bool :=
  a.source < b.source || (a.source = b.source && a.target < b.target)

/-- The first of the least elements of a list. -/
def least? {α : Type} (before : α → α → Bool) : List α → Option α
  | [] => none
  | a :: rest => some (rest.foldl (fun b c => if before c b then c else b) a)

/-- The first violation of a rule. -/
def check (a : Adjacency) : Rule → Option Violation
  | .qubitPresence => if a.graph.sources = [] then some .noQubits else none
  | .measurementParity =>
    let qubits := a.graph.sources.length
    let measurements := a.graph.measurements.length
    if qubits ≠ measurements then some (.measurementCount qubits measurements) else none
  | .qubitFanOut => a.sorted.findSome? fun j =>
    if j.node.kind.isSource ∧ j.outDegree ≠ 1 then some (.qubitOutputs j.node.id j.outDegree)
    else none
  | .gateDegree =>
    (a.sorted.findSome? fun j => match j.node.kind with
      | .singleGate g => gateDegrees 1 g.name j
      | _ => none).or
    (a.sorted.findSome? fun j => match j.node.kind with
      | .twoGate g => gateDegrees 2 g.name j
      | _ => none)
  | .measurementFanIn => a.sorted.findSome? fun j =>
    if j.node.kind.isMeasurement ∧ j.inDegree ≠ 1 then
      some (.measurementInputs j.node.id j.inDegree)
    else none
  | .noOrphanGates => a.sorted.findSome? fun j =>
    match j.node.kind.gateName? with
    | some name =>
      if j.inDegree = 0 ∧ j.outDegree = 0 then some (.orphanedGate j.node.id name) else none
    | none => none
  | .wireEndpoints =>
    match least? (fun a b : NodeId => a < b) a.duplicates with
    | some id => some (.duplicateId id)
    | none => (least? endsBefore a.dangling).map fun e =>
      .danglingWire e.source e.target
        (if (a.find? e.source).isNone then e.source else e.target)
  | .terminalDirection => a.sorted.findSome? fun j =>
    if j.node.kind.isSource ∧ 0 < j.inDegree then some (.wireIntoQubit j.node.id)
    else if j.node.kind.isMeasurement ∧ 0 < j.outDegree then
      some (.wireFromMeasurement j.node.id)
    else none
  | .handleAssignment => a.sorted.findSome? fun j =>
    match j.node.kind with
    | .twoGate g => handleUse j g
    | _ => none

end Rule

/-- A list of rules for a log. -/
def rulesText (rules : List Rule) : String :=
  Text.record "StructuralValidator" [("rules", Text.quotedList (rules.map Rule.name))]

/-- The first violation of a list of rules. -/
def firstViolation? (rules : List Rule) (a : Adjacency) : Option Violation :=
  rules.findSome? (Rule.check a)

end QuantumWiring
