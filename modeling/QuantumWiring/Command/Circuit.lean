import QuantumWiring.Command.Basic
import QuantumWiring.Command.Report

/-!
# Commands on circuit graphs

A graph is compiled into a request, which is written to a file, or sent to the engine for
simulation or for the evolution of a stabilizer state.
-/

namespace QuantumWiring.Command

/-- Where the request for a graph is written if nothing else is asked for. -/
def defaultOutput (input : String) : String := Path.besideStem input "_request.json"

/-- Compile the graph in a file and write the request for an endpoint.  Nothing is written if
anything fails. -/
def writeRequest (input : String) (output : Option String) (mode : EndpointMode)
    (words : List String) : Command Unit := do
  print ["→ Compiling " ++ input ++ " for the " ++ mode.name ++ " endpoint"]
  let g ← loadGraph input
  print ["  Loaded: " ++ toString g.nodes.length ++ " nodes, " ++ toString g.edges.length ++
    " wires, " ++ toString g.sources.length ++ " qubits"]
  let c ← require .compile (compile mode g)
  print ("✓ Compilation complete" :: Report.circuit c)
  let request ← match mode with
    | .circuit =>
      if words ≠ [] then throw .needlessTableau
      else pure c.circuitRequest.toJson
    | .stabilizer => pure (← stabilizerRequest c words).toJson
  let path := output.getD (defaultOutput input)
  writeFile path request.pretty
  print ["  Output: " ++ path]

/-- Compile the graph in a file and have it simulated. -/
def simulateCircuit (input : String) (settings : EngineSettings) : Command Unit := do
  print ["→ Simulating " ++ input]
  let g ← loadGraph input
  let c ← require .compile (compile .circuit g)
  print (Report.circuit c)
  let engine ← connect settings
  let d ← call (engine.simulateCircuit c.circuitRequest)
  print (Report.distribution d)

/-- The lines of a step of an evolution, headed by the operation that led to it. -/
def stepLines (operations : List OperationSpec) (step : Nat) (t : Tableau) : List String :=
  let label := match operations[step]? with
    | some op => op.text
    | none => "?"
  ("  Step " ++ toString (step + 1) ++ ": " ++ label) :: Report.tableau t

/-- Compile the graph in a file and have a stabilizer state evolved through it. -/
def evolveState (input : String) (words : List String) (settings : EngineSettings) : Command Unit := do
  print ["→ Evolving " ++ input]
  let g ← loadGraph input
  let c ← require .compile (compile .stabilizer g)
  print (Report.circuit c)
  let request ← stabilizerRequest c words
  match request.initialTableau with
  | some t => print (["", "  Initial state:"] ++ Report.tableau t)
  | none => pure ()
  let engine ← connect settings
  let e ← call (engine.evolveStabilizer request)
  print (["", "✓ Evolution (" ++ toString e.steps.length ++ " steps):"] ++
    e.steps.zipIdx.flatMap fun (t, step) => stepLines request.operations step t)

end QuantumWiring.Command
