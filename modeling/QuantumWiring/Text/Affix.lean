/-!
# Beginnings and ends of texts

Texts are looked at as lists of characters: whether one begins with another, what stands before
and after the first occurrence of a character, and a text without a repeated last character.
-/

namespace QuantumWiring.Text

/-- Whether `s` begins with `start`. -/
def beginsWith (s start : String) : Bool :=
  start.toList.isPrefixOf s.toList

/-- What follows `start`, if the characters begin with it. -/
def dropStart? (start : List Char) (cs : List Char) : Option (List Char) :=
  if start.isPrefixOf cs then some (cs.drop start.length) else none

/-- The characters before and after the first `c`, if there is one. -/
def cut? (c : Char) : List Char → Option (List Char × List Char)
  | [] => none
  | d :: rest => if d = c then some ([], rest) else (cut? c rest).map fun (a, b) => (d :: a, b)

/-- Drop every `c` at the beginning. -/
def dropLeading (c : Char) (cs : List Char) : List Char :=
  cs.dropWhile (· = c)

/-- Drop every `c` at the end. -/
def dropTrailing (c : Char) (cs : List Char) : List Char :=
  (cs.reverse.dropWhile (· = c)).reverse

end QuantumWiring.Text
