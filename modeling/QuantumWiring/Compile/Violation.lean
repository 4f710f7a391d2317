import QuantumWiring.Graph.Edge

/-!
# Violations

What can be wrong with the wiring of a graph.  Each violation carries the ids and counts that its
message needs; `Violation.node?` is the node that the editor marks.
-/

namespace QuantumWiring

/-- A violated rule of well-formedness. -/
inductive Violation where
  | noQubits
  | measurementCount (qubits measurements : Nat)
  | qubitOutputs (id : NodeId) (found : Nat)
  | gateInputs (id : NodeId) (kind operation : String) (expected found : Nat)
  | gateOutputs (id : NodeId) (kind operation : String) (expected found : Nat)
  | measurementInputs (id : NodeId) (found : Nat)
  | orphanedGate (id : NodeId) (operation : String)
  | duplicateId (id : NodeId)
  | danglingWire (source target missing : NodeId)
  | wireIntoQubit (id : NodeId)
  | wireFromMeasurement (id : NodeId)
  | handleUse (id : NodeId) (operation : String) (handle : Handle) (found : Nat)
deriving DecidableEq

namespace Violation

/-- One wire, or several. -/
def wires (n : Nat) : String := if n = 1 then "wire" else "wires"

def message : Violation → String
  | .noQubits => "no qubits found; add at least one qubit"
  | .measurementCount q m =>
    s!"{q} qubit(s) but {m} measurement(s); each qubit must be measured"
  | .qubitOutputs id found => s!"qubit '{id}' must have exactly 1 output wire, found {found}"
  | .gateInputs _ kind operation expected found =>
    s!"{kind} ({operation}) must have exactly {expected} input {wires expected}, found {found}"
  | .gateOutputs _ kind operation expected found =>
    s!"{kind} ({operation}) must have exactly {expected} output {wires expected}, found {found}"
  | .measurementInputs id found =>
    s!"measurement '{id}' must have exactly 1 input wire, found {found}"
  | .orphanedGate _ operation => s!"gate ({operation}) is not connected to the circuit"
  | .duplicateId id => s!"node id '{id}' is used by more than one node"
  | .danglingWire source target missing =>
    s!"wire from '{source}' to '{target}' references missing node '{missing}'"
  | .wireIntoQubit id => s!"qubit '{id}' cannot have input wires"
  | .wireFromMeasurement id => s!"measurement '{id}' cannot have output wires"
  | .handleUse _ operation handle found =>
    s!"two qubit gate ({operation}) must use handle {handle.name} exactly once, found {found}"

/-- The node that the violation is attached to. -/
def node? : Violation → Option NodeId
  | .noQubits | .measurementCount _ _ => none
  | .qubitOutputs id _ | .gateInputs id _ _ _ _ | .gateOutputs id _ _ _ _
  | .measurementInputs id _ | .orphanedGate id _ | .duplicateId id | .wireIntoQubit id
  | .wireFromMeasurement id | .handleUse id _ _ _ => some id
  | .danglingWire _ _ missing => some missing

end Violation

end QuantumWiring
