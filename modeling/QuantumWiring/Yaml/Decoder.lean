import QuantumWiring.Text.Decimal
import QuantumWiring.Yaml.Node

/-!
# Decoding YAML documents

A scalar has no type of its own; what it means is asked by the setting it is written for.  A text
takes any scalar as it stands, a number or an absent value has to be plain.  A record starts from
its defaults and takes the settings that a mapping writes; nothing written is no setting.  A
decoder gives nothing where the document does not fit.
-/

namespace QuantumWiring.Yaml

/-- Reads a typed value from a document at its node. -/
abbrev Decoder (α : Type) := Document → Option α

/-- A setting of a record: its name, and how what is written for it is put in. -/
structure Setting (α : Type) where
  name : String
  put : Document → α → Option α

/-- The value of a digit below the base. -/
def digit? (base : Nat) (c : Char) : Option Nat := (Json.hexValue? c).filter (· < base)

/-- The value of one or more digits. -/
def digitsValue? (base : Nat) : List Char → Option Nat
  | [] => none
  | cs => cs.foldlM (fun n c => (digit? base c).map (n * base + ·)) 0

/-- The number below `limit` that a plain scalar stands for: decimal without needless zeros, or
with the mark of another base, after an optional plus sign. -/
def count? (limit : Nat) (cs : List Char) : Option Nat :=
  let unsigned := match cs with
    | '+' :: rest => rest
    | _ => cs
  let value := match unsigned with
    | '0' :: 'x' :: digits => digitsValue? 16 digits
    | '0' :: 'o' :: digits => digitsValue? 8 digits
    | '0' :: 'b' :: digits => digitsValue? 2 digits
    | '0' :: _ :: _ => none
    | digits => digitsValue? 10 digits
  value.filter (· < limit)

/-- Whether a plain scalar stands for an absent value. -/
def isNullText (text : String) : Bool := ["null", "Null", "NULL", "~"].contains text

namespace Decoder

variable {α : Type}

/-- A value that is written as a scalar. -/
def scalar (read : Scalar → Option α) : Decoder α := fun d =>
  match d.root with
  | .scalar s => read s
  | _ => none

/-- Any scalar as it stands. -/
def text : Decoder String := scalar fun s => some s.text

/-- A number below `limit`, plain or as a block that is tagged as a number. -/
def count (limit : Nat) : Decoder Nat := scalar fun s =>
  if s.style = .plain ∨ (s.style = .literal ∧ s.tag = some Tag.int) then
    count? limit s.text.toList
  else none

/-- A value that may be absent. -/
def optional (decode : Decoder α) : Decoder (Option α) := fun d =>
  let present := (decode d).map some
  match d.root with
  | .scalar ⟨none, .plain, text⟩ => if text = "" || isNullText text then some none else present
  | .scalar ⟨some tag, .plain, text⟩ =>
    if tag = Tag.null then if isNullText text then some none else none else present
  | _ => present

/-- One of several named values, written as its name or as a tag on nothing. -/
def variant (table : List (String × α)) : Decoder α := scalar fun s =>
  match s.tag.bind Tag.localName? with
  | some name =>
    if s.style = .plain ∧ (s.text = "" ∨ isNullText s.text) then table.lookup name else none
  | none => table.lookup s.text

/-- A setting that is decoded by itself and then put into the record. -/
def setting {ρ : Type} (name : String) (decode : Decoder α) (put : α → ρ → ρ) : Setting ρ :=
  ⟨name, fun d r => (decode d).map (put · r)⟩

/-- The settings of a mapping, each at most once; other keys are passed over. -/
def putPairs (settings : List (Setting α)) (d : Document) (seen : List String) :
    List (Node × Node) → α → Option α
  | [], a => some a
  | (k, v) :: rest, a => do
    let name ← text (d.part k)
    match settings.find? (·.name = name) with
    | none => putPairs settings d seen rest a
    | some s =>
      if name ∈ seen then none
      else putPairs settings d (name :: seen) rest (← s.put (d.part v) a)

/-- A record with defaults. -/
def record (settings : List (Setting α)) (default : α) : Decoder α := fun d =>
  match d.root with
  | .mapping pairs => putPairs settings d [] pairs default
  | .scalar s => if s.style = .plain ∧ s.text = "" then some default else none
  | _ => none

end Decoder

end QuantumWiring.Yaml
