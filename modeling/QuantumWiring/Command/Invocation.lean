import QuantumWiring.Command.Option
import QuantumWiring.Compile.Circuit
import QuantumWiring.Correction.Request

/-!
# Invocations

What the arguments of the program ask for: one task, and for every task a configuration file and
an engine that override the settings.  These two may stand before or behind the name of the task;
of two the one behind it counts.
-/

namespace QuantumWiring.Command

/-- What the program is asked to do. -/
inductive Task where
  | compile (input : String) (output : Option String) (mode : Option EndpointMode)
      (words : List String)
  | run (input : String)
  | evolve (input : String) (words : List String)
  | correct (code : Code) (errors : List PauliError)
  | version
deriving DecidableEq

/-- A task with the settings that are given with it. -/
structure Invocation where
  config : Option String
  engine : Option String
  task : Task
deriving DecidableEq

namespace Invocation

/-- The options of every task. -/
def common : List CommandOption :=
  [⟨"verbose", some 'v', .count, fun _ => true, false, "Increase verbosity (-v, -vv, -vvv)"⟩,
    ⟨"config", some 'c', .single, (· ≠ ""), false,
      "Configuration file (defaults to ~/.qwire/config.yaml)"⟩,
    ⟨"engine", none, .single, fun _ => true, false,
      "Engine base URL, overriding the configuration"⟩]

def helpOption : CommandOption :=
  ⟨"help", some 'h', .stop (.help none), fun _ => true, false, "Print help"⟩

def versionOption : CommandOption :=
  ⟨"version", some 'V', .stop .version, fun _ => true, false, "Print version"⟩

def inputOption : CommandOption :=
  ⟨"input", some 'i', .single, fun _ => true, true, "Input file (editor JSON export)"⟩

def outputOption : CommandOption :=
  ⟨"output", some 'o', .single, fun _ => true, false, "Output file for the request body"⟩

def modeOption : CommandOption :=
  ⟨"mode", some 'm', .single, fun s => (EndpointMode.parse s).toBool, false,
    "Endpoint mode (circuit, stabilizer)"⟩

def tableauOption (remark : String) : CommandOption :=
  ⟨"tableau", some 't', .repeated, fun _ => true, false,
    "Initial tableau generator, e.g. \"+XZ\" (" ++ remark ++ ")"⟩

def codeOption : CommandOption :=
  ⟨"code", none, .single, fun s => (Code.parse s).toBool, false,
    "Code (bit_flip, phase_flip, steane) [default: bit_flip]"⟩

def errorOption : CommandOption :=
  ⟨"error", some 'e', .repeated, fun s => (PauliError.parse s).toBool, false,
    "Error to inject as KIND:QUBIT, e.g. X:1 (repeatable)"⟩

/-- How a task is asked for. -/
structure Form where
  name : String
  description : String
  options : List CommandOption

/-- The forms of the tasks. -/
def forms : List Form :=
  [⟨"compile", "Compile a circuit graph into an engine request",
      [inputOption, outputOption, modeOption,
        tableauOption "stabilizer mode, repeatable"]⟩,
    ⟨"run", "Compile a circuit graph and simulate it", [inputOption]⟩,
    ⟨"evolve", "Compile a circuit graph and evolve a stabilizer state through it",
      [inputOption, tableauOption "repeatable"]⟩,
    ⟨"qec", "Run an error correction cycle", [codeOption, errorOption]⟩,
    ⟨"version", "Show version information", []⟩]

/-- The form with a name. -/
def form? (name : String) : Option Form := forms.find? (·.name = name)

/-- The value of an option that has to be given. -/
def needed (given : Given) (name : String) : Except Stop String :=
  match given.value? name with
  | some value => .ok value
  | none => .error .usage

/-- The task of a name with its options. -/
def taskOf (name : String) (given : Given) : Except Stop Task :=
  match name with
  | "compile" => do
    let mode := (given.value? "mode").bind fun s => (EndpointMode.parse s).toOption
    return .compile (← needed given "input") (given.value? "output") mode (given.values "tableau")
  | "run" => return .run (← needed given "input")
  | "evolve" => return .evolve (← needed given "input") (given.values "tableau")
  | "qec" =>
    let code := (given.value? "code").bind fun s => (Code.parse s).toOption
    let errors := (given.values "error").filterMap fun s => (PauliError.parse s).toOption
    .ok (.correct (code.getD .bitFlip) errors)
  | "version" => .ok .version
  | _ => .error .usage

/-- What is asked for with the word `help`. -/
def helpFor : List String → Stop
  | [] => .help none
  | [name] => if name = "help" ∨ (form? name).isSome then .help (some name) else .usage
  | _ => .usage

/-- Read the arguments of the program. -/
def ofArguments (arguments : List String) : Except Stop Invocation := do
  let isCommand (word : String) : Bool := word = "help" || (form? word).isSome
  let leading := common ++ [helpOption, versionOption]
  let (before, rest) ← CommandOption.readArguments leading isCommand arguments none []
  match rest with
  | none => throw .usage
  | some (name, arguments) =>
    match form? name with
    | none => throw (helpFor arguments)
    | some form =>
      let options := common ++ form.options ++
        [{ helpOption with kind := .stop (.help (some name)) }]
      let (behind, _) ← CommandOption.readArguments options (fun _ => false) arguments none []
      let value? (name : String) : Option String := (behind.value? name).or (before.value? name)
      return ⟨value? "config", value? "engine", ← taskOf name behind⟩

end Invocation

end QuantumWiring.Command
