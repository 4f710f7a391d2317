import QuantumWiring.Compile.Circuit
import QuantumWiring.Compile.Rule

/-!
# Compiling a graph

A graph is checked against a list of rules, put in order and emitted for an endpoint.  It fails
at the first violated rule, or when some gate or measurement never gets its lines.  `Stage` names
the steps of a compilation and says which may follow which.
-/

namespace QuantumWiring

/-- Why no request could be made from a graph. -/
inductive CompileFailure where
  | structural (violation : Violation)
  /-- Gates and measurements that never got their lines. -/
  | stalled (nodes : List NodeId)
  | tableau (rejection : TableauRejection)
deriving DecidableEq

namespace CompileFailure

/-- The texts of a failure and of its causes, the outermost first. -/
def chain : CompileFailure → List String
  | .structural v => ["Invalid circuit: " ++ v.message, v.message]
  | .stalled nodes =>
    [s!"Scheduling stalled: {nodes.length} node(s) never received all inputs (" ++
      ", ".intercalate nodes ++ ")"]
  | .tableau (.invalid e) => ["IR error: " ++ e.message, e.message]
  | .tableau (.width expected found) =>
    [s!"Initial tableau acts on {found} qubits but the circuit has {expected}"]

def message (f : CompileFailure) : String := f.chain.headD ""

end CompileFailure

/-- Compile a graph for an endpoint after checking the given rules. -/
def compileWith (rules : List Rule) (mode : EndpointMode) (g : CircuitGraph) :
    Except CompileFailure CompiledCircuit :=
  let a := Adjacency.build g
  match firstViolation? rules a with
  | some v => .error (.structural v)
  | none =>
    let s := schedule a
    if s.isComplete then .ok (.emit s.ops g.orderedSources mode)
    else .error (.stalled s.stalled)

/-- Compile a graph for an endpoint. -/
def compile (mode : EndpointMode) (g : CircuitGraph) : Except CompileFailure CompiledCircuit :=
  compileWith Rule.standard mode g

/-- A step of a compilation. -/
inductive Stage where
  | idle
  | validating
  | rejected
  | scheduling
  | stalled
  | emitting
  | done
deriving DecidableEq

namespace Stage

def all : List Stage :=
  [.idle, .validating, .rejected, .scheduling, .stalled, .emitting, .done]

def name : Stage → String
  | .idle => "idle"
  | .validating => "validating"
  | .rejected => "rejected"
  | .scheduling => "scheduling"
  | .stalled => "stalled"
  | .emitting => "emitting"
  | .done => "done"

def ofName? (s : String) : Option Stage := all.find? (·.name = s)

/-- The stages that may follow. -/
def next : Stage → List Stage
  | .idle => [.validating]
  | .validating => [.rejected, .scheduling]
  | .scheduling => [.stalled, .emitting]
  | .emitting => [.done]
  | .rejected | .stalled | .done => []

def canAdvanceTo (s t : Stage) : Bool := t ∈ s.next

/-- Whether the compilation ends here. -/
def isTerminal (s : Stage) : Bool := s.next.isEmpty

end Stage

end QuantumWiring
