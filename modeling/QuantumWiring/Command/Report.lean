import QuantumWiring.Compile.Circuit
import QuantumWiring.Correction.Basic
import QuantumWiring.Engine.Distribution

/-!
# Reports

How circuits, states and probabilities are shown to the user, as lists of lines.
-/

namespace QuantumWiring.Report

/-- A text at the right of a field. -/
def alignRight (width : Nat) (s : String) : String :=
  String.ofList (List.replicate (width - s.length) ' ') ++ s

/-- A text at the left of a field. -/
def alignLeft (width : Nat) (s : String) : String :=
  s ++ String.ofList (List.replicate (width - s.length) ' ')

/-! ## Circuits -/

/-- The line of a qubit. -/
def qubitLine (q : QubitDescriptor) : String :=
  "    " ++ lineName q.index ++ " " ++ q.id ++ " = " ++ q.value.ket

/-- The line of an operation at a place in the list. -/
def operationLine (place : Nat) (op : OperationSpec) : String :=
  "    " ++ alignRight 3 (toString place) ++ ": " ++ op.text

/-- A compiled circuit: its size, its qubits and its operations. -/
def circuit (c : CompiledCircuit) : List String :=
  ["  Compiled: " ++ toString c.numQubits ++ " qubits, " ++ toString c.gateCount ++ " gates, " ++
    toString c.operations.length ++ " operations (" ++ c.mode.name ++ " mode)"] ++
  c.qubits.map qubitLine ++ c.operations.zipIdx.map fun (op, place) => operationLine place op

/-! ## Probabilities -/

/-- The greatest number of basis states that are listed. -/
def listedStates : Nat := 16

/-- A probability in percent. -/
def percent (p : Binary64) : Binary64 :=
  .ofMagnitude p.isNegative (Binary64.mulMagnitude p.magnitude (Binary64.nearestNat 100))

/-- The length of the bar of a percentage: half of it, rounded, a half away from zero. -/
def barLength (percent : Binary64) : Nat :=
  let (num, den) := Binary64.ratio percent.magnitude
  (num + den) / (2 * den)

/-- The line of a basis state. -/
def stateLine (label : String) (p : Binary64) : String :=
  let percent := percent p
  "  " ++ label ++ ": " ++ alignRight 7 (percent.fixed 3) ++ "% " ++
    String.ofList (List.replicate (barLength percent) '█')

/-- The basis states that can be measured, and the most likely one. -/
def distribution (d : Distribution) : List String :=
  let states := d.labeled.filter fun (_, p) => Binary64.zero.lt p
  let more := states.length - listedStates
  ["", "✓ Probabilities (" ++ toString d.numQubits ++ " qubits):"] ++
  (states.take listedStates).map (fun (label, p) => stateLine label p) ++
  (if 0 < more then ["  ... and " ++ toString more ++ " more states"] else []) ++
  match d.mostLikely? with
  | some (i, p) => ["", "  Most likely: " ++ d.label i ++ " (" ++ p.fixed 3 ++ ")"]
  | none => []

/-! ## States -/

/-- The generators of a state, one a line. -/
def tableau (t : Tableau) : List String :=
  if t.height = 0 then ["    (empty)"] else t.generators.map ("    " ++ ·)

/-- A state of an error correction cycle. -/
def snapshot (title : String) (s : Snapshot) : List String :=
  let syndrome := String.join (s.syndrome.map fun b => toString b.toNat)
  ["", "  " ++ title ++ ": syndrome " ++ syndrome] ++ tableau s.tableau

/-- How an error correction cycle ended. -/
def outcome : CorrectionOutcome → String
  | .noError => "✓ No error detected"
  | .corrected => "✓ Error corrected"
  | .uncorrectable => "✗ Error cannot be corrected"

end QuantumWiring.Report
