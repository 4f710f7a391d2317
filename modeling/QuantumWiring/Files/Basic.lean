import QuantumWiring.Files.Path

/-!
# Files

The files that a program sees, as a value: texts at places below one root, and a current folder
where relative paths start.  Whatever lies above a file is a folder.  Reading and writing go
through `Files.walk`, which follows the names of a path one by one and asks each of them but the
last to be a folder.  A file need not hold a text; then it is there and can be overwritten, but not
read.
-/

namespace QuantumWiring

/-- The names on the way from the root. -/
abbrev Place := List String

/-- What is at a place. -/
inductive Entry where
  | folder
  | file (text : String)
  /-- A file whose bytes are not a text in UTF-8. -/
  | binary
deriving DecidableEq

/-- Why a path cannot be read or written. -/
inductive FileFault where
  | missing
  | isFolder
  | notFolder
  | tooLong
  /-- The path holds a character that no path may hold. -/
  | zeroCharacter
  | notText
deriving DecidableEq

def FileFault.message : FileFault → String
  | .missing => "No such file or directory (os error 2)"
  | .isFolder => "Is a directory (os error 21)"
  | .notFolder => "Not a directory (os error 20)"
  | .tooLong => "File name too long (os error 36)"
  | .zeroCharacter => "file name contained an unexpected NUL byte"
  | .notText => "stream did not contain valid UTF-8"

/-- The files below a root. -/
structure Files where
  /-- Where relative paths start. -/
  current : Place
  /-- What is known to be there; of two entries for one place the first counts. -/
  entries : List (Place × Entry)
deriving DecidableEq

namespace Files

/-- What is at a place. -/
def entry? (fs : Files) (place : Place) : Option Entry :=
  match fs.entries.find? (·.1 = place) with
  | some (_, e) => some e
  | none =>
    if place.isPrefixOf fs.current || fs.entries.any (place.isPrefixOf ·.1) then some .folder
    else none

/-- Accept a place where a folder is. -/
def folder (fs : Files) (place : Place) : Except FileFault Unit :=
  match fs.entry? place with
  | some .folder => .ok ()
  | some (.file _) | some .binary => .error .notFolder
  | none => .error .missing

/-- How many bytes a name may take. -/
def nameLimit : Nat := 255

/-- How many bytes a path has to stay below. -/
def pathLimit : Nat := 4096

/-- Accept a name to look up in a folder. -/
def acceptName (name : String) : Except FileFault Unit :=
  if nameLimit < name.utf8ByteSize then .error .tooLong else .ok ()

/-- Accept a path to follow. -/
def acceptPath (path : String) : Except FileFault Unit :=
  if path = "" then .error .missing
  else if path.toList.contains '\x00' then .error .zeroCharacter
  else if pathLimit ≤ path.utf8ByteSize then .error .tooLong
  else .ok ()

/-- The place that names lead to from another place. -/
def walk (fs : Files) (here : Place) : List String → Except FileFault Place
  | [] => .ok here
  | name :: rest => do
    fs.folder here
    if name = "" ∨ name = "." then fs.walk here rest
    else if name = ".." then fs.walk here.dropLast rest
    else
      acceptName name
      fs.walk (here ++ [name]) rest

/-- Where a path starts. -/
def origin (fs : Files) (path : String) : Place :=
  if Path.isAbsolute path then [] else fs.current

/-- What a path leads to. -/
def resolve (fs : Files) (path : String) : Except FileFault Entry := do
  acceptPath path
  let place ← fs.walk (fs.origin path) (Path.names path)
  match fs.entry? place with
  | some e => .ok e
  | none => .error .missing

/-- Whether a path leads to anything. -/
def contains (fs : Files) (path : String) : Bool := (fs.resolve path).toBool

/-- The text of a file. -/
def read (fs : Files) (path : String) : Except FileFault String := do
  match ← fs.resolve path with
  | .file text => .ok text
  | .folder => .error .isFolder
  | .binary => .error .notText

/-- The place that a text written to a path goes to.  Its folder has to be there, and no folder
may have its name. -/
def target (fs : Files) (path : String) : Except FileFault Place := do
  acceptPath path
  let names := Path.names (String.ofList (Text.dropTrailing '/' path.toList))
  let folder ← fs.walk (fs.origin path) names.dropLast
  fs.folder folder
  let name := names.getLastD ""
  if path.toList.getLast? = some '/' ∨ name = "" ∨ name = "." ∨ name = ".." then
    throw .isFolder
  acceptName name
  match fs.entry? (folder ++ [name]) with
  | some .folder => throw .isFolder
  | _ => .ok (folder ++ [name])

/-- Put a text at a place. -/
def put (fs : Files) (place : Place) (text : String) : Files :=
  { fs with entries := (place, .file text) :: fs.entries.filter (·.1 ≠ place) }

/-- Write a text to a path. -/
def write (fs : Files) (path text : String) : Except FileFault Files := do
  let place ← fs.target path
  .ok (fs.put place text)

/-- The files that hold another text than before, or were not there, with their new texts. -/
def changes (before after : Files) : List (Place × String) :=
  after.entries.filterMap fun (place, e) =>
    match e with
    | .file text => if before.entry? place = some (.file text) then none else some (place, text)
    | .folder | .binary => none

end Files

end QuantumWiring
