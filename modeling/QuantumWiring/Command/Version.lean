import QuantumWiring.Command.Basic
import QuantumWiring.Command.Report

/-!
# The version command

The version of the program, its parts and the codes that it knows.
-/

namespace QuantumWiring.Command

/-- The version of the program. -/
def versionNumber : String := "0.1.0"

/-- The answer to the version option. -/
def versionLine : String := "qwire " ++ versionNumber

/-- The version with what the program consists of. -/
def versionReport : List String :=
  ["qwire v" ++ versionNumber ++ " - visual quantum circuit graph compiler",
    "",
    "Components:",
    "  qwire-ir       Circuit graph, operations and tableau model",
    "  qwire-compile  Validation, scheduling and request emission",
    "  qwire-hal      Simulation engine client",
    "  qwire-cli      Command-line interface",
    "",
    "Error correcting codes:"] ++
  Code.all.map (fun c => "  " ++ Report.alignLeft 12 c.name ++ " " ++ c.description) ++
  ["", "License:    Apache-2.0"]

/-- Show the version. -/
def showVersion : Command Unit := print versionReport

end QuantumWiring.Command
