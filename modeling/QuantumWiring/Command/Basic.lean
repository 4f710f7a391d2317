import QuantumWiring.Engine.Exchange
import QuantumWiring.Files.Basic

/-!
# Commands

A command reads and writes files, prints lines and calls the engine.  A `Command` is such a
command as a function on a `Session`: the files it finds, the answers that the engine will give,
and what has been printed and sent so far.  A failure ends the command and leaves the session as
it is at that point.
-/

namespace QuantumWiring

/-- Why a command failed. -/
inductive CommandFailure where
  | noSuchFile (path : String)
  | unreadable (path : String) (fault : FileFault)
  | notGraph (path : String) (problem : Json.Problem)
  | compile (failure : CompileFailure)
  /-- A tableau was given for the circuit endpoint. -/
  | needlessTableau
  | malformedTableau (fault : TableauFault)
  | unwritable (path : String) (fault : FileFault)
  | settings (fault : SettingsFault)
  | engine (fault : EngineFault)

namespace CommandFailure

/-- The texts of a failure and of its causes, the outermost first. -/
def chain : CommandFailure → List String
  | .noSuchFile path => ["File not found: " ++ path]
  | .unreadable path fault => ["Failed to read file: " ++ path, fault.message]
  | .notGraph path problem =>
    ["Failed to parse graph: " ++ path, "JSON error: " ++ problem.message, problem.message]
  | .compile failure => failure.chain
  | .needlessTableau => ["--tableau only applies to stabilizer mode"]
  | .malformedTableau fault => ["Invalid initial tableau", fault.message]
  | .unwritable path fault => ["Failed to write file: " ++ path, fault.message]
  | .settings fault =>
    ["Failed to create engine client", (EngineFault.configuration fault).message]
  | .engine fault => [fault.message]

/-- The whole text of a failure. -/
def message (f : CommandFailure) : String := ": ".intercalate f.chain

end CommandFailure

/-- What a command works on, and what it has done. -/
structure Session where
  files : Files
  /-- The answers of the engine, in order; a request without one is dropped. -/
  answers : List Answer
  printed : List String
  sent : List Post

namespace Session

/-- Nothing has been done. -/
def start (files : Files) (answers : List Answer) : Session := ⟨files, answers, [], []⟩

/-- The answer to the next request. -/
def nextAnswer (s : Session) : Answer := s.answers.headD .dropped

end Session

/-- A command, or a part of one. -/
abbrev Command (α : Type) := ExceptT CommandFailure (StateM Session) α

namespace Command

variable {α ε : Type}

/-- Perform an action. -/
def perform (a : Command α) (s : Session) : Except CommandFailure α × Session :=
  (ExceptT.run a).run s

/-- Print lines. -/
def print (lines : List String) : Command Unit :=
  modify fun s => { s with printed := s.printed ++ lines }

/-- Go on with a result, or fail for the reason that there is none. -/
def require (failure : ε → CommandFailure) (result : Except ε α) : Command α :=
  match result with
  | .ok a => pure a
  | .error e => throw (failure e)

/-- Call the engine. -/
def call (exchange : Answer → Exchange α) : Command α := do
  let s ← get
  let x := exchange s.nextAnswer
  set { s with sent := s.sent ++ x.sent, answers := s.answers.drop x.sent.length }
  require .engine x.outcome

/-- Load the graph in a file. -/
def loadGraph (path : String) : Command CircuitGraph := do
  let files := (← get).files
  if !files.contains path then throw (.noSuchFile path)
  let text ← require (.unreadable path) (files.read path)
  require (.notGraph path) (CircuitGraph.ofText text)

/-- The tableau of signed Pauli words; no words are no tableau. -/
def initialTableau (words : List String) : Command (Option Tableau) :=
  if words = [] then pure none
  else return some (← require .malformedTableau (Tableau.ofGenerators words))

/-- The request to the stabilizer endpoint that starts in the state of signed Pauli words. -/
def stabilizerRequest (c : CompiledCircuit) (words : List String) : Command StabilizerRequest := do
  let initial ← initialTableau words
  require (.compile ∘ .tableau) (c.stabilizerRequest initial)

/-- Write a text to a file. -/
def writeFile (path text : String) : Command Unit := do
  let files ← require (.unwritable path) ((← get).files.write path text)
  modify fun s => { s with files }

/-- Get hold of the engine; its address is shown first. -/
def connect (settings : EngineSettings) : Command Engine := do
  print ["  Engine: " ++ settings.baseUrl]
  require .settings (Engine.ofSettings settings)

end Command

end QuantumWiring
