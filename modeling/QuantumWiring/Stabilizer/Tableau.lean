import QuantumWiring.Json.Record
import QuantumWiring.Stabilizer.Pauli
import QuantumWiring.Text.Blank

/-!
# Tableaux

A tableau holds the generators of a stabilizer state as rows of x bits and z bits and one phase
code a row.  It is an interchange format, so any numbers may stand in it; `check` accepts the
ones that mean something, and `ofGenerators` and `generators` go between rows and signed Pauli
words.
-/

namespace QuantumWiring

/-- The generators of a stabilizer state in bits and phase codes. -/
structure Tableau where
  x : List (List UInt8)
  z : List (List UInt8)
  r : List UInt8
deriving DecidableEq

/-- What is wrong with a tableau or with the words it is made from. -/
inductive TableauFault where
  | invalidLetter (row : Nat) (letter : Char)
  | wordLength (row : Nat) (found expected : Nat)
  | rowCounts (x z r : Nat)
  | rowWidth (row : Nat) (x z expected : Nat)
  | notBits (row : Nat)
  | phaseCode (code : UInt8)
deriving DecidableEq

namespace TableauFault

/-- What is wrong, without saying that it is a tableau. -/
def detail : TableauFault → String
  | .invalidLetter row c => s!"generator {row}: invalid Pauli '" ++ c.toString ++ "'"
  | .wordLength row found expected =>
    s!"generator {row} acts on {found} qubits, expected {expected}"
  | .rowCounts x z r => s!"row counts differ: x={x}, z={z}, r={r}"
  | .rowWidth row x z expected => s!"row {row} has width x={x}, z={z}, expected {expected}"
  | .notBits row => s!"row {row} contains a non-bit entry"
  | .phaseCode code => "phase code " ++ toString code.toNat ++ " out of range"

def message (e : TableauFault) : String := "Invalid tableau: " ++ e.detail

end TableauFault

namespace Tableau

def empty : Tableau := ⟨[], [], []⟩

/-- The number of qubits that the generators act on. -/
def width (t : Tableau) : Nat := (t.x.head?.map List.length).getD 0

/-- The number of generators. -/
def height (t : Tableau) : Nat := t.r.length

/-! ## From and to Pauli words -/

/-- The letters of a word; `row` is its place in messages. -/
def readLetters (row : Nat) : List Char → Except TableauFault (List Pauli)
  | [] => .ok []
  | c :: rest =>
    match Pauli.ofLetter? c with
    | none => .error (.invalidLetter row c)
    | some p => do
      let ps ← readLetters row rest
      .ok (p :: ps)

/-- A signed word, blanks left out. -/
def readWord (row : Nat) (word : String) : Except TableauFault (Phase × List Pauli) := do
  let (phase, letters) := Phase.split (word.toList.filter (!Text.isBlank ·))
  let ps ← readLetters row letters
  .ok (phase, ps)

/-- The tableau with one more generator in front. -/
def addRow (phase : Phase) (ps : List Pauli) (t : Tableau) : Tableau :=
  ⟨ps.map Pauli.xBit :: t.x, ps.map Pauli.zBit :: t.z, phase.code :: t.r⟩

/-- Signed words from row `row` on; all have to be as long as the first. -/
def readWords (row : Nat) (length : Option Nat) : List String → Except TableauFault Tableau
  | [] => .ok .empty
  | word :: rest => do
    let (phase, ps) ← readWord row word
    match length with
    | some n => if ps.length ≠ n then throw (.wordLength row ps.length n)
    | none => pure ()
    let t ← readWords (row + 1) (some (length.getD ps.length)) rest
    .ok (t.addRow phase ps)

/-- The tableau of signed Pauli words, one for each generator. -/
def ofGenerators (words : List String) : Except TableauFault Tableau := readWords 0 none words

/-- The letters of two rows of bits, as far as both reach. -/
def letters? : List UInt8 → List UInt8 → Option (List Char)
  | x :: xs, z :: zs =>
    match Pauli.ofBits? x z with
    | none => none
    | some p => (letters? xs zs).map (p.letter :: ·)
  | _, _ => some []

/-- The signed word of a row. -/
def generator? (t : Tableau) (row : Nat) : Option String :=
  match t.r[row]?.bind Phase.ofCode?, t.x[row]?, t.z[row]? with
  | some phase, some xs, some zs =>
    (letters? xs zs).map fun cs => String.ofList (phase.sign ++ cs)
  | _, _, _ => none

/-- The signed words of all rows, a question mark where a row has none. -/
def generators (t : Tableau) : List String :=
  (List.range t.height).map fun row => (t.generator? row).getD "?"

/-! ## Well-formedness -/

/-- Whether an entry is a bit. -/
def isBit (b : UInt8) : Bool := b ≤ 1

/-- Check two rows of bits and those below them. -/
def checkRows (width : Nat) : Nat → List (List UInt8) → List (List UInt8) →
    Except TableauFault Unit
  | row, xs :: x, zs :: z =>
    if xs.length ≠ width ∨ zs.length ≠ width then
      .error (.rowWidth row xs.length zs.length width)
    else if !(xs.all isBit && zs.all isBit) then .error (.notBits row)
    else checkRows width (row + 1) x z
  | _, _, _ => .ok ()

/-- Check that the rows have one shape and that bits and phase codes are in range. -/
def check (t : Tableau) : Except TableauFault Unit := do
  if t.x.length ≠ t.height ∨ t.z.length ≠ t.height then
    throw (.rowCounts t.x.length t.z.length t.height)
  checkRows t.width 0 t.x t.z
  match t.r.find? (3 < ·) with
  | some code => .error (.phaseCode code)
  | none => .ok ()

/-! ## Interchange -/

/-- The fields of a tableau in declaration order. -/
def fields : Json.Fields (List (List UInt8) × List (List UInt8) × List UInt8 × Unit) :=
  .cons ⟨"x", .list (.list .byte), .required⟩ <|
    .cons ⟨"z", .list (.list .byte), .required⟩ <|
    .cons ⟨"r", .list .byte, .required⟩ <| .nil

/-- The tableau of its fields. -/
def ofFields : List (List UInt8) × List (List UInt8) × List UInt8 × Unit → Tableau
  | (x, z, r, _) => ⟨x, z, r⟩

def decoder : Json.Decoder Tableau := .record "Tableau" fields ofFields

/-- A number of 8 bits as a value. -/
def byteJson (b : UInt8) : Json.Value := .nat b.toNat

/-- The fields of a tableau as they are written. -/
def jsonFields (t : Tableau) : List (String × Json.Value) :=
  [("x", .ofList (.ofList byteJson) t.x), ("z", .ofList (.ofList byteJson) t.z),
    ("r", .ofList byteJson t.r)]

def toJson (t : Tableau) : Json.Value := .object t.jsonFields

end Tableau

end QuantumWiring
