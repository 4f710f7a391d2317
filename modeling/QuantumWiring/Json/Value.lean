import QuantumWiring.Binary64.Rounding

/-!
# JSON values

A number keeps apart the integers and the binary floating point numbers: `1` and `1.0` are
different values.  An object is the list of its fields in written order.  A value read from a
text has its fields in the order of their names, each name once; the builders below keep the
order in which a record declares its fields.
-/

namespace QuantumWiring.Json

/-- A number of a document. -/
inductive Number where
  | integer (value : Int)
  | real (value : Binary64)
deriving DecidableEq

/-- A JSON value. -/
inductive Value where
  | null
  | bool (value : Bool)
  | number (value : Number)
  | string (value : String)
  | array (items : List Value)
  | object (fields : List (String × Value))

/-- The number nearest to a number of a document. -/
def Number.toBinary64 : Number → Binary64
  | .integer i => Binary64.ofInt i
  | .real x => x

namespace Value

/-- A count as a value. -/
def nat (n : Nat) : Value := .number (.integer n)

/-- A floating point number as a value. -/
def real (x : Binary64) : Value := .number (.real x)

/-- A value that may be absent, as null where it is. -/
def ofOption {α : Type} (encode : α → Value) : Option α → Value
  | none => .null
  | some a => encode a

/-- A list as an array. -/
def ofList {α : Type} (encode : α → Value) (items : List α) : Value :=
  .array (items.map encode)

/-- The field of the given name, if the value is an object that has one. -/
def field? (name : String) : Value → Option Value
  | .object fields => (fields.find? (·.1 = name)).map (·.2)
  | _ => none

/-- Whether the value is null. -/
def isNull : Value → Bool
  | .null => true
  | _ => false

end Value

/-- Put a field among fields sorted by name; a field of that name is replaced. -/
def insertField (name : String) (value : Value) : List (String × Value) → List (String × Value)
  | [] => [(name, value)]
  | (n, v) :: rest =>
    if name = n then (name, value) :: rest
    else if name < n then (name, value) :: (n, v) :: rest
    else (n, v) :: insertField name value rest

end QuantumWiring.Json
