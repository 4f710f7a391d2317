import QuantumWiring.Command.Circuit
import QuantumWiring.Command.Correction
import QuantumWiring.Command.Help
import QuantumWiring.Command.Version
import QuantumWiring.Config.File

/-!
# The program

The program reads its arguments, loads the configuration and carries out the task.  It is a
function of the arguments, the environment, the files and the answers of the engine, and its
outcome says everything that can be seen of a run.
-/

namespace QuantumWiring.Command

/-- Why a run ended early. -/
inductive ProgramFailure where
  | config (fault : ConfigFault)
  | command (failure : CommandFailure)

def ProgramFailure.message : ProgramFailure → String
  | .config fault => fault.message
  | .command failure => failure.message

/-- What can be seen of a run. -/
structure Outcome where
  printed : List String
  failure : Option ProgramFailure
  files : Files
  sent : List Post

/-- Carry out a task. -/
def Task.command (config : Config) : Task → Command Unit
  | .compile input output mode words =>
    writeRequest input output (mode.getD config.compile.mode) words
  | .run input => simulateCircuit input config.engineSettings
  | .evolve input words => evolveState input words config.engineSettings
  | .correct code errors => correctErrors code errors config.engineSettings
  | .version => showVersion

/-- The outcome of a command. -/
def outcome (c : Command Unit) (s : Session) : Outcome :=
  let (result, s) := c.perform s
  ⟨s.printed, match result with
    | .ok () => none
    | .error failure => some (.command failure), s.files, s.sent⟩

/-- The paths that a task may read or write. -/
def Task.paths : Task → List String
  | .compile input output _ _ => [input, output.getD (defaultOutput input)]
  | .run input | .evolve input _ => [input]
  | .correct _ _ | .version => []

/-- The paths that an invocation may read or write. -/
def Invocation.paths (i : Invocation) (env : Environment) : List String :=
  i.config.toList ++ (Config.homeFile? env).toList ++ i.task.paths

/-- Carry out an invocation. -/
def Invocation.outcome (i : Invocation) (env : Environment) (s : Session) : Outcome :=
  match Config.load s.files env i.config with
  | .error fault => ⟨s.printed, some (.config fault), s.files, s.sent⟩
  | .ok config =>
    let config := match i.engine with
      | some url => config.withUrl url
      | none => config
    Command.outcome (i.task.command config) s

/-- The outcome of showing some lines. -/
def shown (lines : List String) (s : Session) : Outcome :=
  ⟨s.printed ++ lines, none, s.files, s.sent⟩

/-- How a run ends: the exit status, and what is seen of it unless the arguments make no sense. -/
def run (arguments : List String) (env : Environment) (s : Session) : Nat × Option Outcome :=
  match Invocation.ofArguments arguments with
  | .error .usage => (2, none)
  | .error (.help command) => (0, some (shown (Help.lines command) s))
  | .error .version => (0, some (shown [versionLine] s))
  | .ok i =>
    let o := i.outcome env s
    (if o.failure.isSome then 1 else 0, some o)

end QuantumWiring.Command
