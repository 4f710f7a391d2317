import QuantumWiring.Compile.Compiler
import QuantumWiring.Correction.Basic

/-!
# Faults of an engine call

A call fails because its request is not acceptable, its settings are not, the engine cannot be
reached, the engine says no, or its answer holds no usable result.  `EngineFault.message` is the
text of each.
-/

namespace QuantumWiring

/-- Why a request is not acceptable. -/
inductive RequestFault where
  | tooManyQubits (n : Nat)
  | unknownCode (name : String)
  | errorSyntax (text : String)
  | errorQubit (text : String)
  | unknownError (name : String)
  | misplacedError (error : PauliError) (code : Code)
  | compile (failure : CompileFailure)

def RequestFault.message : RequestFault → String
  | .tooManyQubits n => s!"{n} qubits is too many"
  | .unknownCode name => s!"unknown code '{name}', expected bit_flip, phase_flip or steane"
  | .errorSyntax text => s!"expected KIND:QUBIT, got '{text}'"
  | .errorQubit text => s!"invalid qubit index in '{text}'"
  | .unknownError name => s!"unknown Pauli error '{name}', expected X, Y or Z"
  | .misplacedError e code =>
    s!"error {e.text} is outside the {code.name} code's {code.numQubits} qubits"
  | .compile failure => failure.message

/-- Why the settings of an engine are not acceptable. -/
inductive SettingsFault where
  | url (url : String)
  | zeroTimeout
  | path (path : String)
deriving DecidableEq

def SettingsFault.message : SettingsFault → String
  | .url given => s!"engine URL must start with http:// or https://, got '{given}'"
  | .zeroTimeout => "timeout must be non-zero"
  | .path given => s!"endpoint path must start with '/', got '{given}'"

/-- Why an answer holds no usable result. -/
inductive ResponseFault where
  | notJson
  | missing (field : String)
  | malformed (what : String) (problem : Json.Problem)
  | probabilityCount (expected qubits found : Nat)
  | invalidProbability (p : Binary64)
  | probabilitySum (sum : Binary64)
  | stepTableau (step : Nat) (fault : TableauFault)
  | stepWidth (step found expected : Nat)
  | snapshotTableau (fault : TableauFault)
  | snapshotWidth (found : Nat) (code : Code)

def ResponseFault.message : ResponseFault → String
  | .notJson => "body is not JSON: malformed JSON"
  | .missing field => s!"missing '{field}'"
  | .malformed what problem => s!"malformed {what}: {problem.message}"
  | .probabilityCount expected qubits found =>
    s!"expected {expected} probabilities for {qubits} qubit(s), got {found}"
  | .invalidProbability p => "invalid probability " ++ p.positional
  | .probabilitySum sum => "probabilities sum to " ++ sum.positional ++ ", expected 1"
  | .stepTableau step fault => s!"step {step}: {fault.message}"
  | .stepWidth step found expected => s!"step {step} acts on {found} qubits, expected {expected}"
  | .snapshotTableau fault => fault.message
  | .snapshotWidth found code =>
    s!"tableau acts on {found} qubits, {code.name} code has {code.numQubits}"

/-- Why a call failed. -/
inductive EngineFault where
  /-- The engine could not be reached or did not answer. -/
  | network
  /-- The engine answered with a status that is not a success. -/
  | api (status : Nat) (message : String)
  | responseShape (fault : ResponseFault)
  | invalidRequest (fault : RequestFault)
  | configuration (fault : SettingsFault)

def EngineFault.message : EngineFault → String
  | .network => "Network error: the connection was closed without an answer"
  | .api status message => s!"Engine error ({status}): {message}"
  | .responseShape fault => "No usable result from engine: " ++ fault.message
  | .invalidRequest fault => "Invalid request: " ++ fault.message
  | .configuration fault => "Configuration error: " ++ fault.message

/-- A failed compilation as the refusal of a request. -/
def CompileFailure.toEngineFault (f : CompileFailure) : EngineFault :=
  .invalidRequest (.compile f)

end QuantumWiring
