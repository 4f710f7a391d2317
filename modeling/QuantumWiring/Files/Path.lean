import QuantumWiring.Text.Affix

/-!
# Paths

A path is a text of names between slashes; it is absolute if it starts with a slash.  The last
name of a path has a stem, which is what stands before its last point; a point at the beginning
starts no extension.
-/

namespace QuantumWiring.Path

/-- The parts of a text between slashes. -/
def parts : List Char → List (List Char)
  | [] => [[]]
  | c :: rest =>
    if c = '/' then [] :: parts rest
    else
      match parts rest with
      | [] => [[c]]
      | p :: ps => (c :: p) :: ps

/-- The names of a path. -/
def names (path : String) : List String := (parts path.toList).map String.ofList

/-- Whether a path starts at the root. -/
def isAbsolute (path : String) : Bool := path.toList.head? = some '/'

/-- Drop the slashes at the end, and steps to the same folder with them; a slash at the beginning
stays.  The characters are given in reverse. -/
def trimFolder : List Char → List Char
  | ['/'] => ['/']
  | '/' :: rest => trimFolder rest
  | '.' :: '/' :: rest => trimFolder ('/' :: rest)
  | cs => cs

/-- The folder part of a path, without the slash before the last name, and the last name. -/
def splitLast (path : String) : List Char × List Char :=
  let reversed := path.toList.reverse
  let name := (reversed.takeWhile (· ≠ '/')).reverse
  ((trimFolder (reversed.drop name.length)).reverse, name)

/-- A name without its extension. -/
def stem (name : List Char) : List Char :=
  match Text.cut? '.' name.reverse with
  | some (_, reversedStem) => if reversedStem = [] then name else reversedStem.reverse
  | none => name

/-- A path in a folder; no folder is the current one. -/
def join (folder name : List Char) : List Char :=
  if folder = [] ∨ folder.getLast? = some '/' then folder ++ name else folder ++ '/' :: name

/-- The path beside the given one whose name is the stem with an ending. -/
def besideStem (path ending : String) : String :=
  let (folder, name) := splitLast path
  String.ofList (join folder (stem name ++ ending.toList))

end QuantumWiring.Path
