import QuantumWiring.Json.Decoder

/-!
# Operations

The palette of gates on one and on two qubits, and the operations of a circuit, which are the
gates and the measurement.  Each has one name, under which it is written, read and shown.
-/

namespace QuantumWiring

/-- A gate on one qubit. -/
inductive SingleGate where
  | hadamard
  | pauliX
  | pauliY
  | pauliZ
  | phase
  | t
deriving DecidableEq

/-- A gate on two qubits. -/
inductive TwoGate where
  | cnot
  | swap
  | cphase
deriving DecidableEq

/-- An operation of a circuit. -/
inductive Operation where
  | single (gate : SingleGate)
  | two (gate : TwoGate)
  | measurement
deriving DecidableEq

/-- A name that is not in the vocabulary it was looked up in. -/
structure UnknownOperation where
  /-- What kind of operation was wanted. -/
  kind : String
  name : String
deriving DecidableEq

def UnknownOperation.message (e : UnknownOperation) : String :=
  "Unknown " ++ e.kind ++ " operation '" ++ e.name ++ "'"

namespace SingleGate

/-- The gates in the order of the palette. -/
def all : List SingleGate := [.hadamard, .pauliX, .pauliY, .pauliZ, .phase, .t]

def name : SingleGate → String
  | .hadamard => "hadamard"
  | .pauliX => "pauli_x"
  | .pauliY => "pauli_y"
  | .pauliZ => "pauli_z"
  | .phase => "phase"
  | .t => "t"

def ofName? (s : String) : Option SingleGate := all.find? (·.name = s)

/-- What the palette is called in messages. -/
def kindName : String := "single qubit gate"

/-- Look a gate up by its name. -/
def parse (s : String) : Except UnknownOperation SingleGate :=
  match ofName? s with
  | some g => .ok g
  | none => .error ⟨kindName, s⟩

def decoder : Json.Decoder SingleGate := Json.Decoder.variant (all.map fun g => (g.name, g))

def toJson (g : SingleGate) : Json.Value := .string g.name

end SingleGate

namespace TwoGate

/-- The gates in the order of the palette. -/
def all : List TwoGate := [.cnot, .swap, .cphase]

def name : TwoGate → String
  | .cnot => "cnot"
  | .swap => "swap"
  | .cphase => "cphase"

def ofName? (s : String) : Option TwoGate := all.find? (·.name = s)

/-- What the palette is called in messages. -/
def kindName : String := "two qubit gate"

/-- Look a gate up by its name. -/
def parse (s : String) : Except UnknownOperation TwoGate :=
  match ofName? s with
  | some g => .ok g
  | none => .error ⟨kindName, s⟩

def decoder : Json.Decoder TwoGate := Json.Decoder.variant (all.map fun g => (g.name, g))

def toJson (g : TwoGate) : Json.Value := .string g.name

end TwoGate

namespace Operation

/-- The name of the measurement. -/
def measurementName : String := "measurement"

def name : Operation → String
  | .single g => g.name
  | .two g => g.name
  | .measurement => measurementName

/-- How many lines the operation takes. -/
def arity : Operation → Nat
  | .single _ | .measurement => 1
  | .two _ => 2

def isMeasurement : Operation → Bool
  | .measurement => true
  | _ => false

/-- Look an operation up by its name: the measurement, then the gates on one qubit, then those
on two. -/
def parse (s : String) : Except UnknownOperation Operation :=
  if s = measurementName then .ok .measurement
  else
    match SingleGate.ofName? s with
    | some g => .ok (.single g)
    | none =>
      match TwoGate.ofName? s with
      | some g => .ok (.two g)
      | none => .error ⟨"circuit", s⟩

def decoder : Json.Decoder Operation :=
  Json.Decoder.string.refine fun s => (parse s).mapError UnknownOperation.message

def toJson (op : Operation) : Json.Value := .string op.name

theorem parse_name (op : Operation) : parse op.name = .ok op := by
  cases op with
  | measurement => rfl
  | single g => cases g <;> rfl
  | two g => cases g <;> rfl

end Operation

end QuantumWiring
