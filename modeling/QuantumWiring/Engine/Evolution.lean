import QuantumWiring.Engine.Fault

/-!
# States reported by an engine

The stabilizer endpoint answers with the tableau after each operation, the error correction
endpoint with the states of a cycle.  Both answers are accepted only if every tableau in them is
well formed and acts on the qubits that were asked for; a step without generators acts on any
number of qubits.
-/

namespace QuantumWiring

/-- The tableau after each operation. -/
structure Evolution where
  steps : List Tableau
deriving DecidableEq

namespace Evolution

def decoder : Json.Decoder Evolution :=
  .record "StabilizerEvolution" (.cons ⟨"evolution", .list Tableau.decoder, .required⟩ .nil)
    fun (steps, _) => ⟨steps⟩

def toJson (e : Evolution) : Json.Value :=
  .object [("evolution", .ofList Tableau.toJson e.steps)]

/-- Check the steps from place `step` on. -/
def checkSteps (n : Nat) (step : Nat) : List Tableau → Except ResponseFault Unit
  | [] => .ok ()
  | t :: rest =>
    match t.check with
    | .error e => .error (.stepTableau step e)
    | .ok _ =>
      if 0 < t.height ∧ t.width ≠ n then .error (.stepWidth step t.width n)
      else checkSteps n (step + 1) rest

/-- The evolution in an answer for `n` qubits. -/
def ofResponse (body : Json.Value) (n : Nat) : Except EngineFault Evolution :=
  match body.field? "evolution" with
  | none => .error (.responseShape (.missing "evolution"))
  | some v =>
    match (Json.Decoder.list Tableau.decoder).ofValue v with
    | .error e => .error (.responseShape (.malformed "'evolution'" e))
    | .ok steps =>
      match checkSteps n 0 steps with
      | .error e => .error (.responseShape e)
      | .ok _ => .ok ⟨steps⟩

/-- The state after the last operation. -/
def final? (e : Evolution) : Option Tableau := e.steps.getLast?

end Evolution

namespace CorrectionResult

/-- Check that the tableaux are well formed and act on the qubits of the code. -/
def checkSnapshots (code : Code) : List Snapshot → Except ResponseFault Unit
  | [] => .ok ()
  | s :: rest =>
    match s.tableau.check with
    | .error e => .error (.snapshotTableau e)
    | .ok _ =>
      if s.tableau.width ≠ code.numQubits then .error (.snapshotWidth s.tableau.width code)
      else checkSnapshots code rest

/-- Whether a field of an answer is absent or null. -/
def lacks (body : Json.Value) (field : String) : Bool :=
  match body.field? field with
  | some v => v.isNull
  | none => true

/-- The result in an answer for a code. -/
def ofResponse (body : Json.Value) (code : Code) : Except EngineFault CorrectionResult :=
  match ["initial", "afterErrors"].find? (lacks body) with
  | some field => .error (.responseShape (.missing field))
  | none =>
    match decoder.ofValue body with
    | .error e => .error (.responseShape (.malformed "QEC result" e))
    | .ok r =>
      match checkSnapshots code r.snapshots with
      | .error e => .error (.responseShape e)
      | .ok _ => .ok r

end CorrectionResult

end QuantumWiring
