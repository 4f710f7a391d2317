import QuantumWiring.Json.Decoder

/-!
# Records

A record is described by its `Fields` in declaration order.  It is decoded field by field in the
order of the document, each field by its own decoder; a repeated field is a problem where it
stands, an unknown field is skipped, and fields that are missing at the end are reported in
declaration order.  A record may also be written as the array of its fields.
-/

namespace QuantumWiring.Json

/-- What a record has for a field that is left out. -/
inductive Absence (α : Type) where
  /-- The field has to be there. -/
  | required
  /-- The field may be left out of an object, but not out of the array of all fields. -/
  | inObject (default : α)
  /-- The field may be left out of an object and at the end of an array. -/
  | anywhere (default : α)

/-- A field of a record. -/
structure Field (α : Type) where
  name : String
  decode : Decoder α
  absence : Absence α

/-- The fields of a record in declaration order. -/
inductive Fields : Type → Type 1 where
  | nil : Fields Unit
  | cons {α ρ : Type} (field : Field α) (rest : Fields ρ) : Fields (α × ρ)

namespace Fields

/-- What has been decoded of a record. -/
def Slots : {ρ : Type} → Fields ρ → Type
  | _, .nil => Unit
  | _, @cons α _ _ rest => Option α × rest.Slots

/-- Nothing has been decoded. -/
def empty : {ρ : Type} → (fs : Fields ρ) → fs.Slots
  | _, .nil => ()
  | _, .cons _ rest => (none, rest.empty)

def count : {ρ : Type} → Fields ρ → Nat
  | _, .nil => 0
  | _, .cons _ rest => rest.count + 1

/-- Decode the document of the field with the given name, if the record has such a field. -/
def accept? (origin : Origin) (name : String) (d : Document) :
    {ρ : Type} → (fs : Fields ρ) → fs.Slots → Option (Except Problem fs.Slots)
  | _, .nil, _ => none
  | _, @cons α _ field rest, slots =>
    let filled : Option α × rest.Slots := slots
    if name = field.name then
      match filled.1 with
      | some _ => some (.error (.duplicateField name))
      | none => some ((field.decode origin d).map fun a => (some a, filled.2))
    else (rest.accept? origin name d filled.2).map fun r => r.map fun others => (filled.1, others)

/-- Decode the fields of an object in their order; `other` deals with those that the record does
not have. -/
def acceptAll (origin : Origin) (other : Document → Except Problem Unit) {ρ : Type}
    (fs : Fields ρ) : List (Option String × Document) → fs.Slots → Except Problem fs.Slots
  | [], slots => .ok slots
  | (some name, d) :: rest, slots =>
    match fs.accept? origin name d slots with
    | some r => do acceptAll origin other fs rest (← r)
    | none => do
      other d
      acceptAll origin other fs rest slots
  | (none, _) :: _, _ => .error .malformed

/-- The record, unless a field is missing. -/
def finish : {ρ : Type} → (fs : Fields ρ) → fs.Slots → Except Problem ρ
  | _, .nil, _ => .ok ()
  | _, @cons α _ field rest, slots => do
    let filled : Option α × rest.Slots := slots
    let a ← match filled.1, field.absence with
      | some a, _ => .ok a
      | none, .required => .error (.missingField field.name)
      | none, .inObject a | none, .anywhere a => .ok a
    let r ← rest.finish filled.2
    .ok (a, r)

/-- The record from the array of its fields, and the items that are left. -/
def ofItems (origin : Origin) (expected : String) (position : Nat) :
    {ρ : Type} → Fields ρ → List Document → Except Problem (ρ × List Document)
  | _, .nil, ds => .ok ((), ds)
  | _, .cons field rest, d :: ds => do
    let a ← field.decode origin d
    let (r, ds) ← rest.ofItems origin expected (position + 1) ds
    .ok ((a, r), ds)
  | _, .cons field rest, [] => do
    let a ← match field.absence with
      | .anywhere a => .ok a
      | _ => .error (.invalidLength position expected)
    let (r, ds) ← rest.ofItems origin expected (position + 1) []
    .ok ((a, r), ds)

end Fields

namespace Decoder

/-- How a message names a record. -/
def recordName (name : String) : String := "struct " ++ name

/-- How a message names a record with the number of its fields. -/
def recordLength (name : String) (count : Nat) : String :=
  recordName name ++ " with " ++ toString count ++ (if count = 1 then " element" else " elements")

/-- The problem with items that are left of an array of `length` items. -/
def leftOver (length : Nat) : Origin → Problem
  | .text _ => .malformed
  | .value => .invalidLength length "fewer elements in array"

/-- A record written as an object. -/
def object {ρ : Type} (name : String) (other : Decoder Unit) (fields : Fields ρ) : Decoder ρ
  | origin, .object ds => do
    let inside ← origin.enter
    fields.finish (← fields.acceptAll inside (other inside) ds fields.empty)
  | _, d => .error (mismatch (recordName name) d)

/-- A record written as an object or as the array of its fields. -/
def record {ρ α : Type} (name : String) (fields : Fields ρ) (build : ρ → α) : Decoder α
  | origin, .array ds => do
    let (r, rest) ← fields.ofItems (← origin.enter) (recordLength name fields.count) 0 ds
    if rest.isEmpty then .ok (build r) else .error (leftOver ds.length origin)
  | origin, d => do
    let r ← object name (fun _ => skip) fields origin d
    .ok (build r)

end Decoder

end QuantumWiring.Json
