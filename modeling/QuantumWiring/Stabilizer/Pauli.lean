import QuantumWiring.Text.Affix

/-!
# Signed Pauli words

The four Pauli letters with their bits in a tableau, and the four phases with their codes and
signs.  A sign may be written in several ways; `Phase.split` takes off the longest one.
-/

namespace QuantumWiring

/-- A Pauli operator on one qubit. -/
inductive Pauli where
  | I
  | X
  | Y
  | Z
deriving DecidableEq

namespace Pauli

/-- The x bit. -/
def xBit : Pauli → UInt8
  | .I | .Z => 0
  | .X | .Y => 1

/-- The z bit. -/
def zBit : Pauli → UInt8
  | .I | .X => 0
  | .Z | .Y => 1

/-- The operator with the given bits. -/
def ofBits? (x z : UInt8) : Option Pauli :=
  if x = 0 ∧ z = 0 then some .I
  else if x = 1 ∧ z = 0 then some .X
  else if x = 0 ∧ z = 1 then some .Z
  else if x = 1 ∧ z = 1 then some .Y
  else none

def letter : Pauli → Char
  | .I => 'I'
  | .X => 'X'
  | .Y => 'Y'
  | .Z => 'Z'

/-- The operator of an upper-case letter. -/
def ofLetter? : Char → Option Pauli
  | 'I' => some .I
  | 'X' => some .X
  | 'Y' => some .Y
  | 'Z' => some .Z
  | _ => none

theorem ofLetter?_letter (p : Pauli) : ofLetter? p.letter = some p := by cases p <;> rfl

theorem ofBits?_bits (p : Pauli) : ofBits? p.xBit p.zBit = some p := by cases p <;> decide

end Pauli

/-- The phase of a generator. -/
inductive Phase where
  | plusOne
  | minusOne
  | plusI
  | minusI
deriving DecidableEq

namespace Phase

def code : Phase → UInt8
  | .plusOne => 0
  | .minusOne => 1
  | .plusI => 2
  | .minusI => 3

/-- The phase with the given code. -/
def ofCode? (r : UInt8) : Option Phase :=
  if r = 0 then some .plusOne
  else if r = 1 then some .minusOne
  else if r = 2 then some .plusI
  else if r = 3 then some .minusI
  else none

/-- The sign in front of a generator. -/
def sign : Phase → List Char
  | .plusOne => ['+']
  | .minusOne => ['-']
  | .plusI => ['+', 'i']
  | .minusI => ['-', 'i']

/-- The signs that may be written, a longer one before those it begins with. -/
def signs : List (List Char × Phase) :=
  [(['+', 'i'], .plusI), (['-', 'i'], .minusI), (['+', '1'], .plusOne), (['-', '1'], .minusOne),
    (['+'], .plusOne), (['-'], .minusOne)]

/-- The phase of the sign at the head of a row, and what follows it; no sign is a plus. -/
def split (row : List Char) : Phase × List Char :=
  (signs.findSome? fun (sign, phase) =>
    (Text.dropStart? sign row).map fun rest => (phase, rest)).getD (.plusOne, row)

theorem ofCode?_code (p : Phase) : ofCode? p.code = some p := by cases p <;> decide

end Phase

end QuantumWiring
