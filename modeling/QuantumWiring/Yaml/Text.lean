/-!
# Characters of a YAML text

Blanks and line breaks, the place of a character in lines and columns, and the gaps between the
words of a scalar: blanks stand as they are, but a gap with a line break is folded.
-/

namespace QuantumWiring.Yaml

def isBlank (c : Char) : Bool := c = ' ' || c = '\t'

/-- Whether a character ends a line, in a text prepared by `prepare?`. -/
def isBreak (c : Char) : Bool := c = '\n' || c = '\u2028' || c = '\u2029'

/-- Whether the text goes on with a blank or a line break, or not at all. -/
def atGap : List Char → Bool
  | [] => true
  | c :: _ => isBlank c || isBreak c

/-- Whether a character may stand in a text. -/
def isAllowed (c : Char) : Bool :=
  let n := c.toNat
  n = 0x9 || n = 0xa || n = 0xd || (0x20 ≤ n && n ≤ 0x7e) || n = 0x85 ||
    (0xa0 ≤ n && n ≤ 0xd7ff) || (0xe000 ≤ n && n ≤ 0xfffd) || 0x10000 ≤ n

/-- Write every line break of the usual kinds as a line feed. -/
def unifyBreaks : List Char → List Char
  | [] => []
  | '\r' :: '\n' :: rest => '\n' :: unifyBreaks rest
  | c :: rest => (if c = '\r' || c = '\u0085' then '\n' else c) :: unifyBreaks rest

/-- The characters of a text, if all of them may stand there. -/
def prepare? (s : String) : Option (List Char) :=
  if s.toList.all isAllowed then some (unifyBreaks s.toList) else none

/-- A place in a text. -/
structure Mark where
  /-- How many bytes of the prepared text come before it. -/
  index : Nat
  line : Nat
  column : Nat

namespace Mark

def start : Mark := ⟨0, 0, 0⟩

/-- The place after a character. -/
def after (m : Mark) (c : Char) : Mark :=
  let index := m.index + c.utf8Size
  if isBreak c then ⟨index, m.line + 1, 0⟩ else ⟨index, m.line, m.column + 1⟩

/-- The place after characters. -/
def afterAll (m : Mark) (cs : List Char) : Mark := cs.foldl after m

end Mark

/-- Whether the text goes on with a line that starts or ends a document. -/
def atMarker (m : Mark) (cs : List Char) : Bool :=
  m.column = 0 && (cs.take 3 = ['-', '-', '-'] || cs.take 3 = ['.', '.', '.']) &&
    atGap (cs.drop 3)

/-- What stands between two words of a scalar. -/
inductive Gap where
  | blanks (cs : List Char)
  /-- Line breaks; blanks around them do not count. -/
  | breaks (cs : List Char)
  /-- An escaped line break and further line breaks. -/
  | escaped (cs : List Char)

namespace Gap

def none : Gap := .blanks []

/-- The gap with one more character. -/
def add (c : Char) : Gap → Gap
  | .blanks cs => if isBreak c then .breaks [c] else .blanks (cs ++ [c])
  | .breaks cs => if isBreak c then .breaks (cs ++ [c]) else .breaks cs
  | .escaped cs => if isBreak c then .escaped (cs ++ [c]) else .escaped cs

/-- Whether there is a line break in the gap. -/
def isBroken : Gap → Bool
  | .blanks _ => false
  | .breaks _ | .escaped _ => true

/-- Whether there is nothing in the gap. -/
def isEmpty : Gap → Bool
  | .blanks [] => true
  | _ => false

/-- What the gap means: a single line feed is a blank, of several the first is left out. -/
def text : Gap → List Char
  | .blanks cs | .escaped cs => cs
  | .breaks ['\n'] => [' ']
  | .breaks ('\n' :: cs) => cs
  | .breaks cs => cs

end Gap

end QuantumWiring.Yaml
