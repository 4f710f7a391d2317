import QuantumWiring.Json.Numeral

/-!
# Tokens

`tokens` cuts a text into brackets, separators, literals, numerals and strings.  It ends with a
`fault` where the text holds anything else.  A string may hold any character that is not a
control; an escape names one by a letter or by four hexadecimal digits, and a character beyond
the first plane by two such escapes.  A string with half of such a pair is a token without value.
-/

namespace QuantumWiring.Json

/-- A piece of a text. -/
inductive Token where
  | openArray
  | closeArray
  | openObject
  | closeObject
  | comma
  | colon
  | null
  | bool (value : Bool)
  | number (value : Option Number)
  | string (value : Option String)
  /-- The text is not JSON from here on. -/
  | fault

/-- The value of a hexadecimal digit of either case. -/
def hexValue? (c : Char) : Option Nat :=
  if c.isDigit then some (c.toNat - 48)
  else if 'a' ≤ c ∧ c ≤ 'f' then some (c.toNat - 87)
  else if 'A' ≤ c ∧ c ≤ 'F' then some (c.toNat - 55)
  else none

/-- The value of four hexadecimal digits. -/
def hexUnit? (a b c d : Char) : Option Nat :=
  match hexValue? a, hexValue? b, hexValue? c, hexValue? d with
  | some a, some b, some c, some d => some (((a * 16 + b) * 16 + c) * 16 + d)
  | _, _, _, _ => none

/-- The character that a letter names after a backslash. -/
def namedEscape? : Char → Option Char
  | '"' => some '"'
  | '\\' => some '\\'
  | '/' => some '/'
  | 'b' => some '\x08'
  | 'f' => some '\x0c'
  | 'n' => some '\n'
  | 'r' => some '\r'
  | 't' => some '\t'
  | _ => none

/-- Whether a unit is the first half of a pair. -/
def isHighHalf (n : Nat) : Bool := 0xd800 ≤ n && n < 0xdc00

/-- Whether a unit is the second half of a pair. -/
def isLowHalf (n : Nat) : Bool := 0xdc00 ≤ n && n < 0xe000

/-- The character of a pair of halves. -/
def pairChar (high low : Nat) : Char :=
  Char.ofNat ((high - 0xd800) * 0x400 + (low - 0xdc00) + 0x10000)

/-- The characters of a string, or none for a string without value, and how many characters of
the text they take with the closing quote. -/
abbrev StringBody := Option (List Char) × Nat

/-- A body with one more character in front, which takes `size` characters of the text. -/
def StringBody.push (c : Char) (size : Nat) : StringBody → StringBody
  | (cs, n) => (cs.map (c :: ·), n + size)

/-- A body with half of a pair in front. -/
def StringBody.spoil (size : Nat) : StringBody → StringBody
  | (_, n) => (none, n + size)

/-- Read a string from behind its opening quote. -/
def stringBody? : List Char → Option StringBody
  | [] => none
  | '"' :: _ => some (some [], 1)
  | '\\' :: 'u' :: a :: b :: c :: d :: rest =>
    match hexUnit? a b c d with
    | none => none
    | some n =>
      if isHighHalf n then
        match rest with
        | '\\' :: 'u' :: e :: f :: g :: h :: rest' =>
          match hexUnit? e f g h with
          | none => none
          | some m =>
            if isLowHalf m then (stringBody? rest').map (·.push (pairChar n m) 12)
            else (stringBody? ('\\' :: 'u' :: e :: f :: g :: h :: rest')).map (·.spoil 6)
        | rest => (stringBody? rest).map (·.spoil 6)
      else if isLowHalf n then (stringBody? rest).map (·.spoil 6)
      else (stringBody? rest).map (·.push (Char.ofNat n) 6)
  | '\\' :: c :: rest =>
    match namedEscape? c with
    | none => none
    | some c => (stringBody? rest).map (·.push c 2)
  | c :: rest => if c.toNat < 0x20 then none else (stringBody? rest).map (·.push c 1)

/-- A token that is spelled with letters. -/
def keyword? (cs : List Char) : Option (Token × Nat) :=
  if "null".toList.isPrefixOf cs then some (.null, 4)
  else if "true".toList.isPrefixOf cs then some (.bool true, 4)
  else if "false".toList.isPrefixOf cs then some (.bool false, 5)
  else none

/-- The token at the head of a text and how many characters it takes. -/
def token? : List Char → Option (Token × Nat)
  | '[' :: _ => some (.openArray, 1)
  | ']' :: _ => some (.closeArray, 1)
  | '\x7b' :: _ => some (.openObject, 1)
  | '\x7d' :: _ => some (.closeObject, 1)
  | ',' :: _ => some (.comma, 1)
  | ':' :: _ => some (.colon, 1)
  | '"' :: rest => (stringBody? rest).map fun (s, n) => (.string (s.map String.ofList), n + 1)
  | cs =>
    match numeral? cs with
    | some (l, n) => some (.number l.value?, n)
    | none => keyword? cs

/-- The blanks that may stand between tokens. -/
def isSpace (c : Char) : Bool := c = ' ' || c = '\n' || c = '\t' || c = '\r'

/-- The tokens of a text of which the first `skip` characters belong to a token that has been
read. -/
def tokensAfter : Nat → List Char → List Token
  | _, [] => []
  | skip + 1, _ :: rest => tokensAfter skip rest
  | 0, c :: rest =>
    if isSpace c then tokensAfter 0 rest
    else
      match token? (c :: rest) with
      | none => [.fault]
      | some (t, n) => t :: tokensAfter (n - 1) rest

/-- The tokens of a text up to the first fault. -/
def tokens (s : String) : List Token := tokensAfter 0 s.toList

end QuantumWiring.Json
