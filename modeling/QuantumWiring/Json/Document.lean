import QuantumWiring.Json.Value

/-!
# What was read of a text

A `Document` is the tree of a JSON text up to the first place where the text stops being JSON.
That place is a `fault`, and nothing follows it: the last item of an array that never closes is
a fault, and so is the last field of such an object.  Two more marks stand for texts that are
well formed but have no value: a number too large for 64 bits and a string with half of a
surrogate pair.  They matter only to a reader that wants the value, not to one that skips it.

Reading a document in its own order therefore meets the first problem of the text first,
whether the text is malformed there or its shape is not the wanted one.  Every value is a
document without marks (`Value.toDocument`).
-/

namespace QuantumWiring.Json

/-- The tree of a text up to the first place where it stops being JSON. -/
inductive Document where
  | null
  | bool (value : Bool)
  /-- A number; none where it is too large. -/
  | number (value : Option Number)
  /-- A string; none where an escape in it is half of a pair. -/
  | string (value : Option String)
  | array (items : List Document)
  /-- The fields in written order; a name is none where it is half of a pair or missing. -/
  | object (fields : List (Option String × Document))
  /-- The text is not JSON from here on. -/
  | fault

mutual

/-- Whether no fault was met in the document. -/
def Document.intact : Document → Bool
  | .fault => false
  | .array items => intactItems items
  | .object fields => intactFields fields
  | _ => true

def intactItems : List Document → Bool
  | [] => true
  | d :: rest => d.intact && intactItems rest

def intactFields : List (Option String × Document) → Bool
  | [] => true
  | (_, d) :: rest => d.intact && intactFields rest

end

mutual

/-- A value as a document. -/
def Value.toDocument : Value → Document
  | .null => .null
  | .bool b => .bool b
  | .number n => .number (some n)
  | .string s => .string (some s)
  | .array items => .array (toDocuments items)
  | .object fields => .object (fieldDocuments fields)

def toDocuments : List Value → List Document
  | [] => []
  | v :: rest => v.toDocument :: toDocuments rest

def fieldDocuments : List (String × Value) → List (Option String × Document)
  | [] => []
  | (name, v) :: rest => (some name, v.toDocument) :: fieldDocuments rest

end

end QuantumWiring.Json
