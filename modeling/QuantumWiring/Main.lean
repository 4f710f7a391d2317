import QuantumWiring.Command.Program

/-!
# The command line

Looks at the files and variables that an invocation names, runs the program on them and shows the
outcome.  There is no network here: every request to an engine ends like a dropped connection.
-/

namespace QuantumWiring

/-- The path of a place. -/
def Place.path (place : Place) : String := "/" ++ "/".intercalate place

/-- What is at a place. -/
def entryAt (place : Place) : IO (Option Entry) := do
  try
    match String.fromUTF8? (← IO.FS.readBinFile place.path) with
    | some text => return some (.file text)
    | none => return some .binary
  catch
    | .inappropriateType .. => return some .folder
    | _ => return none

/-- What is at the places on the way of a path. -/
def entriesOn (here : Place) : List String → IO (List (Place × Entry))
  | [] => return []
  | name :: rest => do
    let here :=
      if name = "" || name = "." then here
      else if name = ".." then here.dropLast
      else here ++ [name]
    match ← entryAt here with
    | some e => return (here, e) :: (← entriesOn here rest)
    | none => entriesOn here rest

/-- The files that some paths are about. -/
def filesOn (paths : List String) : IO Files := do
  let current := (Path.names (← IO.currentDir).toString).filter (· ≠ "")
  let bare : Files := ⟨current, []⟩
  let entries ← paths.mapM fun path => entriesOn (bare.origin path) (Path.names path)
  return { bare with entries := entries.flatten }

/-- The variables that the program looks at. -/
def environment : IO Environment := do
  let values ← Environment.names.mapM fun name => return (name, ← IO.getEnv name)
  return fun name => (values.find? (·.1 = name)).bind (·.2)

/-- Show an outcome and write the files that have changed. -/
def finish (before : Files) (o : Command.Outcome) : IO Unit := do
  for line in o.printed do
    IO.println line
  for (place, text) in before.changes o.files do
    IO.FS.writeFile place.path text
  match o.failure with
  | some failure => IO.eprintln ("Error: " ++ failure.message)
  | none => pure ()

end QuantumWiring

open QuantumWiring in
/-- The program. -/
def main (arguments : List String) : IO UInt32 := do
  let env ← environment
  let paths := match Command.Invocation.ofArguments arguments with
    | .ok i => i.paths env
    | .error _ => []
  let files ← filesOn paths
  match Command.run arguments env (.start files []) with
  | (exit, some o) =>
    finish files o
    return exit.toUInt32
  | (exit, none) =>
    IO.eprintln "error: the arguments are not understood"
    return exit.toUInt32
