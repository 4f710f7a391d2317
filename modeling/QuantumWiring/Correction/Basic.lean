import QuantumWiring.Stabilizer.Tableau

/-!
# Error correction

An engine simulates one cycle of a code: errors are put in, a recovery is chosen and applied.
This module holds the codes, the errors, the request and the states that the engine reports.  A
snapshot is written as one object with the fields of its tableau beside its syndrome.
-/

namespace QuantumWiring

/-- A code that corrects errors. -/
inductive Code where
  | bitFlip
  | phaseFlip
  | steane
deriving DecidableEq

namespace Code

def all : List Code := [.bitFlip, .phaseFlip, .steane]

def name : Code → String
  | .bitFlip => "bit_flip"
  | .phaseFlip => "phase_flip"
  | .steane => "steane"

/-- The number of physical qubits. -/
def numQubits : Code → Nat
  | .bitFlip | .phaseFlip => 3
  | .steane => 7

def description : Code → String
  | .bitFlip => "3-qubit bit-flip code, corrects single X errors"
  | .phaseFlip => "3-qubit phase-flip code, corrects single Z errors"
  | .steane => "Steane 7-qubit code, corrects any single-qubit error"

def ofName? (s : String) : Option Code := all.find? (·.name = s)

def decoder : Json.Decoder Code := Json.Decoder.variant (all.map fun c => (c.name, c))

def toJson (c : Code) : Json.Value := .string c.name

end Code

/-- A kind of error on one qubit. -/
inductive ErrorKind where
  | X
  | Y
  | Z
deriving DecidableEq

namespace ErrorKind

def all : List ErrorKind := [.X, .Y, .Z]

def name : ErrorKind → String
  | .X => "X"
  | .Y => "Y"
  | .Z => "Z"

/-- The kind that a letter of either case names. -/
def ofLetters? : List Char → Option ErrorKind
  | ['X'] | ['x'] => some .X
  | ['Y'] | ['y'] => some .Y
  | ['Z'] | ['z'] => some .Z
  | _ => none

def decoder : Json.Decoder ErrorKind := Json.Decoder.variant (all.map fun k => (k.name, k))

def toJson (k : ErrorKind) : Json.Value := .string k.name

end ErrorKind

/-- An error on one physical qubit. -/
structure PauliError where
  kind : ErrorKind
  qubit : Nat
deriving DecidableEq

namespace PauliError

def text (e : PauliError) : String := e.kind.name ++ " on qubit " ++ toString e.qubit

def decoder : Json.Decoder PauliError :=
  .record "PauliError"
    (.cons ⟨"type", ErrorKind.decoder, .required⟩ <|
      .cons ⟨"qubit", .size, .required⟩ <| .nil)
    fun (kind, qubit, _) => ⟨kind, qubit⟩

def toJson (e : PauliError) : Json.Value :=
  .object [("type", e.kind.toJson), ("qubit", .nat e.qubit)]

end PauliError

/-- The request to simulate a cycle. -/
structure CorrectionRequest where
  code : Code
  /-- The errors to put in, in order. -/
  errors : List PauliError
deriving DecidableEq

namespace CorrectionRequest

def decoder : Json.Decoder CorrectionRequest :=
  .record "QecRequest"
    (.cons ⟨"codeType", Code.decoder, .required⟩ <|
      .cons ⟨"errors", .list PauliError.decoder, .required⟩ <| .nil)
    fun (code, errors, _) => ⟨code, errors⟩

def toJson (r : CorrectionRequest) : Json.Value :=
  .object [("codeType", r.code.toJson), ("errors", .ofList PauliError.toJson r.errors)]

/-- The first error on a qubit that the code does not have. -/
def misplaced? (r : CorrectionRequest) : Option PauliError :=
  r.errors.find? (r.code.numQubits ≤ ·.qubit)

end CorrectionRequest

/-- The state of the code at one point of the cycle. -/
structure Snapshot where
  tableau : Tableau
  syndrome : List UInt8
deriving DecidableEq

namespace Snapshot

/-- Whether no syndrome bit is set. -/
def isClean (s : Snapshot) : Bool := s.syndrome.all (· = 0)

/-- The field beside those of the tableau. -/
def syndromeField : Json.Fields (List UInt8 × Unit) :=
  .cons ⟨"syndrome", .list .byte, .inObject []⟩ .nil

/-- The fields of an object that belong to its tableau. -/
def tableauFields (ds : List (Option String × Json.Document)) :
    List (Option String × Json.Document) :=
  ds.filter fun (name, _) => name.any ["x", "z", "r"].contains

/-- A snapshot is read as its syndrome with any other fields, which have to be values; the
tableau is read from those once the object is complete. -/
def decoder : Json.Decoder Snapshot := fun origin d => do
  let (syndrome, _) ←
    Json.Decoder.object "QecSnapshot" (fun o d => (Json.Decoder.value o d).map fun _ => ())
      syndromeField origin d
  let ds := match d with
    | .object ds => tableauFields ds
    | _ => []
  let t ← Json.Decoder.object "Tableau" (fun _ => Json.skip) Tableau.fields .value (.object ds)
  .ok ⟨.ofFields t, syndrome⟩

def toJson (s : Snapshot) : Json.Value :=
  .object (s.tableau.jsonFields ++ [("syndrome", .ofList Tableau.byteJson s.syndrome)])

end Snapshot

/-- The correction that the engine has chosen. -/
structure Recovery where
  kind : ErrorKind
  qubit : Nat
deriving DecidableEq

namespace Recovery

def decoder : Json.Decoder Recovery :=
  .record "Recovery"
    (.cons ⟨"type", ErrorKind.decoder, .required⟩ <|
      .cons ⟨"qubit", .size, .required⟩ <| .nil)
    fun (kind, qubit, _) => ⟨kind, qubit⟩

def toJson (r : Recovery) : Json.Value :=
  .object [("type", r.kind.toJson), ("qubit", .nat r.qubit)]

end Recovery

/-- How a cycle ended. -/
inductive CorrectionOutcome where
  | noError
  | corrected
  | uncorrectable
deriving DecidableEq

/-- What the engine reports of a cycle. -/
structure CorrectionResult where
  initial : Snapshot
  afterErrors : Snapshot
  afterRecovery : Option Snapshot
  recovery : Option Recovery
  /-- Whether the errors left a trace in the syndrome. -/
  hasError : Bool
deriving DecidableEq

namespace CorrectionResult

def decoder : Json.Decoder CorrectionResult :=
  .record "QecResult"
    (.cons ⟨"initial", Snapshot.decoder, .required⟩ <|
      .cons ⟨"afterErrors", Snapshot.decoder, .required⟩ <|
      .cons ⟨"afterRecovery", .optional Snapshot.decoder, .anywhere none⟩ <|
      .cons ⟨"recovery", .optional Recovery.decoder, .anywhere none⟩ <|
      .cons ⟨"hasError", .bool, .anywhere false⟩ <| .nil)
    fun (initial, afterErrors, afterRecovery, recovery, hasError, _) =>
      ⟨initial, afterErrors, afterRecovery, recovery, hasError⟩

def toJson (r : CorrectionResult) : Json.Value :=
  .object [("initial", r.initial.toJson), ("afterErrors", r.afterErrors.toJson),
    ("afterRecovery", .ofOption Snapshot.toJson r.afterRecovery),
    ("recovery", .ofOption Recovery.toJson r.recovery), ("hasError", .bool r.hasError)]

/-- The reported states in the order of the cycle. -/
def snapshots (r : CorrectionResult) : List Snapshot :=
  r.initial :: r.afterErrors :: r.afterRecovery.toList

def outcome (r : CorrectionResult) : CorrectionOutcome :=
  if r.hasError then if r.recovery.isSome then .corrected else .uncorrectable
  else .noError

end CorrectionResult

end QuantumWiring
