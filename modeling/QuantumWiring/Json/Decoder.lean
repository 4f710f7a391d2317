import QuantumWiring.Json.Problem
import QuantumWiring.Json.Reader

/-!
# Decoding documents

A `Decoder` turns a document into a typed value or names the first problem in it.  The same
decoder serves a document read from a text and one made from a value; the `Origin` says which.
In a text the number of nested brackets is limited, and what a text cannot continue with is
malformed; in a value it is a problem of shape.
-/

namespace QuantumWiring.Json

/-- Where a document comes from. -/
inductive Origin where
  /-- A text, in which so many brackets may still be opened. -/
  | text (room : Nat)
  /-- A value that is at hand. -/
  | value

/-- The origin of a text that has just been opened. -/
def Origin.ofText : Origin := .text 127

/-- Reads a typed value from a document. -/
abbrev Decoder (α : Type) := Origin → Document → Except Problem α

/-- The origin of what is inside a bracket. -/
def Origin.enter : Origin → Except Problem Origin
  | .text 0 => .error .malformed
  | .text (room + 1) => .ok (.text room)
  | .value => .ok .value

/-- The problem with a document that is not of the expected kind. -/
def mismatch (expected : String) : Document → Problem
  | .fault | .number none | .string none => .malformed
  | .null => .invalidType .null expected
  | .bool b => .invalidType (.bool b) expected
  | .number (some n) => .invalidType (.number n) expected
  | .string (some s) => .invalidType (.string s) expected
  | .array _ => .invalidType .sequence expected
  | .object _ => .invalidType .map expected

/-- Pass over a document whose value is not wanted. -/
def skip (d : Document) : Except Problem Unit :=
  if d.intact then .ok () else .error .malformed

namespace Decoder

variable {α β : Type}

/-- Check what was decoded and give it its own type. -/
def refine (decode : Decoder α) (check : α → Except String β) : Decoder β := fun origin d => do
  match check (← decode origin d) with
  | .ok b => .ok b
  | .error reason => .error (.refused reason)

def string : Decoder String
  | _, .string (some s) => .ok s
  | _, d => .error (mismatch "a string" d)

def bool : Decoder Bool
  | _, .bool b => .ok b
  | _, d => .error (mismatch "a boolean" d)

/-- A count below `limit`; `kind` is its name in messages. -/
def nat (limit : Nat) (kind : String) : Decoder Nat
  | _, .number (some (.integer i)) =>
    if 0 ≤ i ∧ i < limit then .ok i.toNat
    else .error (.invalidValue (.number (.integer i)) kind)
  | _, d => .error (mismatch kind d)

/-- A number of 8 bits. -/
def byte : Decoder UInt8 := fun origin d => (nat UInt8.size "u8" origin d).map UInt8.ofNat

/-- A count of 32 bits. -/
def word : Decoder Nat := nat UInt32.size "u32"

/-- A size of 64 bits. -/
def size : Decoder Nat := nat UInt64.size "usize"

/-- A number, rounded to 64 bits. -/
def real : Decoder Binary64
  | _, .number (some n) => .ok n.toBinary64
  | _, d => .error (mismatch "f64" d)

/-- Null or a value. -/
def optional (decode : Decoder α) : Decoder (Option α)
  | _, .null => .ok none
  | origin, d => (decode origin d).map some

/-- The items of an array in order. -/
def items (decode : Document → Except Problem α) : List Document → Except Problem (List α)
  | [] => .ok []
  | d :: rest => do
    let a ← decode d
    let as ← items decode rest
    .ok (a :: as)

/-- An array of any length. -/
def list (decode : Decoder α) : Decoder (List α)
  | origin, .array ds => do items (decode (← origin.enter)) ds
  | _, d => .error (mismatch "a sequence" d)

/-- What stands beside the name of a variant in an object. -/
def emptyVariant (d : Document) : Except Problem Unit :=
  match d with
  | .null => .ok ()
  | d => .error (mismatch "unit" d)

/-- One of several named values, written as its name or as an object from the name to null. -/
def variant (table : List (String × α)) : Decoder α := fun origin d =>
  let find (name : String) : Except Problem α :=
    match table.find? (·.1 = name) with
    | some (_, a) => .ok a
    | none => .error (.unknownVariant name (table.map (·.1)))
  match d with
  | .string (some s) => find s
  | .string none => .error .malformed
  | .object fields => do
    let _ ← origin.enter
    match origin, fields with
    | .value, [(some name, d)] | .text _, [(some name, d)] => do
      let a ← find name
      emptyVariant d
      .ok a
    | .value, _ => .error (.invalidValue .map "map with a single key")
    | .text _, (some name, d) :: _ => do
      let _ ← find name
      emptyVariant d
      .error .malformed
    | .text _, _ => .error .malformed
  | d => match origin with
    | .text _ => .error .malformed
    | .value => .error (mismatch "string or map" d)

mutual

/-- Any value. -/
def value : Decoder Value
  | _, .null => .ok .null
  | _, .bool b => .ok (.bool b)
  | _, .number (some n) => .ok (.number n)
  | _, .string (some s) => .ok (.string s)
  | origin, .array ds => do
    let vs ← valueItems (← origin.enter) ds
    .ok (.array vs)
  | origin, .object fields => do
    let fields ← valueFields (← origin.enter) fields []
    .ok (.object fields)
  | _, .number none | _, .string none | _, .fault => .error .malformed

def valueItems (origin : Origin) : List Document → Except Problem (List Value)
  | [] => .ok []
  | d :: rest => do
    let v ← value origin d
    let vs ← valueItems origin rest
    .ok (v :: vs)

/-- The fields after those already sorted; a name that comes again replaces its field. -/
def valueFields (origin : Origin) :
    List (Option String × Document) → List (String × Value) →
      Except Problem (List (String × Value))
  | [], sorted => .ok sorted
  | (some name, d) :: rest, sorted => do
    let v ← value origin d
    valueFields origin rest (insertField name v sorted)
  | (none, _) :: _, _ => .error .malformed

end

/-- Decode a text. -/
def ofText {α : Type} (decode : Decoder α) (s : String) : Except Problem α := do
  let reading := read s
  let a ← decode .ofText reading.document
  if reading.trailing then .error .malformed else .ok a

/-- Decode a value. -/
def ofValue {α : Type} (decode : Decoder α) (v : Value) : Except Problem α :=
  decode .value v.toDocument

end Decoder

/-- The value of a text. -/
def parse (s : String) : Except Problem Value := Decoder.value.ofText s

end QuantumWiring.Json
