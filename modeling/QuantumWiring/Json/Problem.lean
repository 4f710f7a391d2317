import QuantumWiring.Json.Writer
import QuantumWiring.Text.Quoted

/-!
# Problems with a document

A `Problem` says why a document has no typed value: the text is malformed, something else stands
there than is wanted, a field is missing or repeated, a name is unknown, or the value was refused
by its own type.  `Problem.message` is the only place where a problem gets its text.
-/

namespace QuantumWiring.Json

/-- What stands in a document where something else is wanted. -/
inductive Found where
  | null
  | bool (value : Bool)
  | number (value : Number)
  | string (value : String)
  | sequence
  | map

/-- Why a document has no typed value. -/
inductive Problem where
  /-- The text is not JSON, or nested too deeply. -/
  | malformed
  | invalidType (found : Found) (expected : String)
  | invalidValue (found : Found) (expected : String)
  | invalidLength (length : Nat) (expected : String)
  | missingField (name : String)
  | duplicateField (name : String)
  | unknownVariant (name : String) (known : List String)
  /-- The value has the wanted shape but is refused for the given reason. -/
  | refused (reason : String)

/-- How a message describes what it found. -/
def Found.text : Found → String
  | .null => "null"
  | .bool b => "boolean `" ++ (if b then "true" else "false") ++ "`"
  | .number (.integer i) => "integer `" ++ toString i ++ "`"
  | .number (.real x) => "floating point `" ++ (Number.real x).text ++ "`"
  | .string s => "string " ++ Text.quoted s
  | .sequence => "sequence"
  | .map => "map"

/-- A name in backquotes. -/
def backquoted (name : String) : String := "`" ++ name ++ "`"

/-- The names that a message offers instead of an unknown one. -/
def offered : List String → String
  | [] => "there are no variants"
  | [a] => "expected " ++ backquoted a
  | [a, b] => "expected " ++ backquoted a ++ " or " ++ backquoted b
  | names => "expected one of " ++ ", ".intercalate (names.map backquoted)

/-- The text of a problem. -/
def Problem.message : Problem → String
  | .malformed => "malformed JSON"
  | .invalidType found expected => "invalid type: " ++ found.text ++ ", expected " ++ expected
  | .invalidValue found expected => "invalid value: " ++ found.text ++ ", expected " ++ expected
  | .invalidLength n expected => "invalid length " ++ toString n ++ ", expected " ++ expected
  | .missingField name => "missing field " ++ backquoted name
  | .duplicateField name => "duplicate field " ++ backquoted name
  | .unknownVariant name known =>
    "unknown variant " ++ backquoted name ++ ", " ++ offered known
  | .refused reason => reason

end QuantumWiring.Json
