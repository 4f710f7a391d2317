import QuantumWiring.Command.Invocation
import QuantumWiring.Command.Report

/-!
# Help

What the program says about itself and its commands: what each is for, how it is called, and in
columns what may follow.  The options of a command stand among the common ones by their place in
either list, and by letter or name where the places are equal; help and version come last.
-/

namespace QuantumWiring.Command

namespace CommandOption

/-- How an option is written, with a name for its value. -/
def form (o : CommandOption) : String :=
  "--" ++ o.name ++
    match o.kind with
    | .stop _ => ""
    | .count => "..."
    | .single | .repeated => " <" ++ o.name.toUpper ++ ">"

/-- How an option is written behind its letter. -/
def formWithLetter (o : CommandOption) : String :=
  (match o.letter with
    | some c => String.ofList ['-', c, ',', ' ']
    | none => "    ") ++ o.form

/-- The word that orders options of equal place. -/
def word (o : CommandOption) : String :=
  match o.letter with
  | some c => String.ofList [c, '0']
  | none => o.name

end CommandOption

namespace Help

/-- Words with what they are for, in two columns. -/
def columns (rows : List (String × String)) : List String :=
  let width := rows.foldl (fun width (word, _) => max width word.length) 0
  rows.map fun (word, description) =>
    "  " ++ Report.alignLeft width word ++ "  " ++ description

/-- Options in the order in which they are shown. -/
def ordered (common own : List CommandOption) : List CommandOption :=
  let placed := common.zipIdx ++ own.zipIdx
  (placed.mergeSort fun (o, m) (p, n) => m < n || (m = n && o.word ≤ p.word)).map (·.1)

/-- The lines of some options. -/
def optionLines (options : List CommandOption) : List String :=
  "Options:" :: columns (options.map fun o => (o.formWithLetter, o.description))

/-- What the program says about its `help`. -/
def helpDescription : String := "Print this message or the help of the given subcommand(s)"

/-- What the program says about itself. -/
def program : List String :=
  ["qwire command-line interface", "", "Usage: qwire [OPTIONS] <COMMAND>", "", "Commands:"] ++
  columns ((Invocation.forms.map fun f => (f.name, f.description)) ++ [("help", helpDescription)]) ++
  "" :: optionLines (ordered Invocation.common [] ++
    [Invocation.helpOption, Invocation.versionOption])

/-- What the program says about one of its commands. -/
def command (f : Invocation.Form) : List String :=
  let needed := (f.options.filter (·.needed)).map fun o => " " ++ o.form
  [f.description, "", "Usage: qwire " ++ f.name ++ " [OPTIONS]" ++ String.join needed, ""] ++
  optionLines (ordered Invocation.common f.options ++ [Invocation.helpOption])

/-- What the program says about the word `help`. -/
def word : List String :=
  [helpDescription, "", "Usage: qwire help [COMMAND]...", "", "Arguments:"] ++
  columns [("[COMMAND]...", "Print help for the subcommand(s)")]

/-- What the program says about a command, or about itself. -/
def lines : Option String → List String
  | none => program
  | some name => ((Invocation.form? name).map command).getD word

end Help

end QuantumWiring.Command
