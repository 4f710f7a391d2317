import QuantumWiring.Engine.Fault
import QuantumWiring.Text.Affix
import QuantumWiring.Text.Blank
import QuantumWiring.Text.Decimal

/-!
# Typed requests for error correction

A code is typed by its name and an error as `KIND:QUBIT`.  The text is cut at the first colon and
blanks around both parts are dropped; the qubit is looked at before the kind.
-/

namespace QuantumWiring

/-- The code that a name was typed for. -/
def Code.parse (s : String) : Except EngineFault Code :=
  match Code.ofName? s with
  | some c => .ok c
  | none => .error (.invalidRequest (.unknownCode s))

/-- The kind of error that was typed. -/
def ErrorKind.parse (s : String) : Except EngineFault ErrorKind :=
  match ErrorKind.ofLetters? s.toList with
  | some k => .ok k
  | none => .error (.invalidRequest (.unknownError s))

/-- The error that was typed. -/
def PauliError.parse (s : String) : Except EngineFault PauliError :=
  match Text.cut? ':' s.toList with
  | none => .error (.invalidRequest (.errorSyntax s))
  | some (kind, qubit) =>
    match Text.readBelow? UInt64.size (Text.trim qubit) with
    | none => .error (.invalidRequest (.errorQubit s))
    | some qubit =>
      (ErrorKind.parse (String.ofList (Text.trim kind))).map fun kind => ⟨kind, qubit⟩

/-- Check that every error is on a qubit of the code. -/
def CorrectionRequest.check (r : CorrectionRequest) : Except EngineFault Unit :=
  match r.misplaced? with
  | some e => .error (.invalidRequest (.misplacedError e r.code))
  | none => .ok ()

end QuantumWiring
