import QuantumWiring.Json.Token
import QuantumWiring.Yaml.Text

/-!
# Scalars of a YAML text

A scalar is plain, in single quotes, in double quotes with escapes, or a block of lines.  The
readers take a text from the first character of the scalar's content and give its value with the
place where the text goes on; they give nothing where the text is malformed.
-/

namespace QuantumWiring.Yaml

/-- How a scalar is written. -/
inductive ScalarStyle where
  | plain
  | quoted
  /-- A block whose line breaks stand as they are. -/
  | literal
  | folded
deriving DecidableEq

/-- A scalar that has been read. -/
structure ScalarRead where
  text : List Char
  /-- The place behind the scalar. -/
  mark : Mark
  rest : List Char
  /-- Whether the scalar is followed by a line break that has been read with it. -/
  broken : Bool

/-! ## Plain scalars -/

def isFlowIndicator (c : Char) : Bool :=
  c = ',' || c = '[' || c = ']' || c = '\x7b' || c = '\x7d'

/-- Whether a plain scalar ends before a character. -/
def endsPlain (inFlow : Bool) (c : Char) (rest : List Char) : Bool :=
  (c = ':' && atGap rest) || (inFlow && isFlowIndicator c)

/-- Whether a colon stands where a flow collection cannot have one. -/
def misplacedColon (inFlow : Bool) (c : Char) (rest : List Char) : Bool :=
  inFlow && c = ':' && rest.head?.any fun d => d = '?' || isFlowIndicator d

/-- Read a plain scalar on; its lines after the first start at column `indent` or later, except
inside a flow collection. -/
def readPlain (inFlow : Bool) (indent : Nat) :
    Mark → Gap → List Char → List Char → Option ScalarRead
  | m, gap, text, [] => some ⟨text, m, [], gap.isBroken⟩
  | m, gap, text, c :: rest =>
    if isBlank c || isBreak c then
      if gap.isBroken && c = '\t' && m.column < indent then none
      else readPlain inFlow indent (m.after c) (gap.add c) text rest
    else if gap.isBroken && !inFlow && m.column < indent then
      some ⟨text, m, c :: rest, true⟩
    else if (!gap.isEmpty && (c = '#' || atMarker m (c :: rest))) then
      some ⟨text, m, c :: rest, gap.isBroken⟩
    else if misplacedColon inFlow c rest then none
    else if endsPlain inFlow c rest then some ⟨text, m, c :: rest, gap.isBroken⟩
    else readPlain inFlow indent (m.after c) .none (text ++ gap.text ++ [c]) rest

/-! ## Quoted scalars -/

/-- Read a scalar in single quotes on; a quote is written twice. -/
def readSingle : Mark → Gap → List Char → List Char → Option ScalarRead
  | _, _, _, [] => none
  | m, gap, text, '\'' :: '\'' :: rest =>
    readSingle ((m.after '\'').after '\'') .none (text ++ gap.text ++ ['\'']) rest
  | m, gap, text, '\'' :: rest => some ⟨text ++ gap.text, m.after '\'', rest, false⟩
  | m, gap, text, c :: rest =>
    if isBlank c || isBreak c then readSingle (m.after c) (gap.add c) text rest
    else if atMarker m (c :: rest) then none
    else readSingle (m.after c) .none (text ++ gap.text ++ [c]) rest

/-- What has been read of an escape. -/
inductive Escape where
  | none
  /-- The backslash. -/
  | begun
  /-- A letter and some digits of a code point, with the number of digits still missing. -/
  | code (missing value : Nat)

/-- The character that stands for another after a backslash. -/
def escaped? : Char → Option Char
  | '0' => some '\x00'
  | 'a' => some '\x07'
  | 'b' => some '\x08'
  | 't' | '\t' => some '\t'
  | 'n' => some '\n'
  | 'v' => some '\x0b'
  | 'f' => some '\x0c'
  | 'r' => some '\r'
  | 'e' => some '\x1b'
  | ' ' => some ' '
  | '"' => some '"'
  | '/' => some '/'
  | '\\' => some '\\'
  | 'N' => some '\u0085'
  | '_' => some '\u00a0'
  | 'L' => some '\u2028'
  | 'P' => some '\u2029'
  | _ => none

/-- How many hexadecimal digits follow a letter after a backslash. -/
def codeLength? : Char → Option Nat
  | 'x' => some 2
  | 'u' => some 4
  | 'U' => some 8
  | _ => none

/-- Whether a number is a code point of a character. -/
def isScalarValue (n : Nat) : Bool := n < 0xd800 || (0xe000 ≤ n && n < 0x110000)

/-- Read a scalar in double quotes on. -/
def readDouble : Mark → Gap → List Char → Escape → List Char → Option ScalarRead
  | _, _, _, _, [] => none
  | m, gap, text, .none, c :: rest =>
    if c = '"' then some ⟨text ++ gap.text, m.after c, rest, false⟩
    else if c = '\\' then readDouble (m.after c) .none (text ++ gap.text) .begun rest
    else if isBlank c || isBreak c then readDouble (m.after c) (gap.add c) text .none rest
    else if atMarker m (c :: rest) then none
    else readDouble (m.after c) .none (text ++ gap.text ++ [c]) .none rest
  | m, _, text, .begun, c :: rest =>
    if isBreak c then readDouble (m.after c) (.escaped []) text .none rest
    else
      match escaped? c, codeLength? c with
      | some d, _ => readDouble (m.after c) .none (text ++ [d]) .none rest
      | none, some n => readDouble (m.after c) .none text (.code n 0) rest
      | none, none => none
  | m, _, text, .code missing value, c :: rest =>
    match Json.hexValue? c with
    | none => none
    | some d =>
      let n := value * 16 + d
      if 1 < missing then readDouble (m.after c) .none text (.code (missing - 1) n) rest
      else if isScalarValue n then
        readDouble (m.after c) .none (text ++ [Char.ofNat n]) .none rest
      else none

/-! ## Block scalars -/

/-- What becomes of the line breaks at the end of a block. -/
inductive Chomping where
  | strip
  /-- Keep one. -/
  | clip
  | keep

/-- The chomping and the indentation that a block's first line asks for, and what follows. -/
def blockHeader? : List Char → Option (Chomping × Option Nat × List Char)
  | cs => do
    let chomping? (c : Char) : Option Chomping :=
      if c = '-' then some .strip else if c = '+' then some .keep else none
    let width? (c : Char) : Option Nat :=
      if '1' ≤ c ∧ c ≤ '9' then some (c.toNat - 48) else none
    match cs with
    | a :: b :: rest =>
      match chomping? a, width? b, width? a, chomping? b with
      | some chomping, some width, _, _ | _, _, some width, some chomping =>
        some (chomping, some width, rest)
      | some chomping, none, _, _ => some (chomping, none, b :: rest)
      | _, _, some width, none => some (.clip, some width, b :: rest)
      | _, _, _, _ => some (.clip, none, cs)
    | [a] =>
      match chomping? a, width? a with
      | some chomping, _ => some (chomping, none, [])
      | none, some width => some (.clip, some width, [])
      | none, none => some (.clip, none, cs)
    | [] => some (.clip, none, [])

/-- Empty lines, and the blanks before the next line. -/
structure BlankLines where
  breaks : List Char
  /-- The greatest column that was reached. -/
  width : Nat
  mark : Mark
  rest : List Char

/-- Read empty lines; blanks beyond column `indent` belong to a line's content. -/
def readBlankLines (indent : Option Nat) :
    Mark → List Char → Nat → List Char → Option BlankLines
  | m, breaks, width, [] => some ⟨breaks, max width m.column, m, []⟩
  | m, breaks, width, c :: rest =>
    let outside := indent.all (m.column < ·)
    if c = ' ' && outside then readBlankLines indent (m.after c) breaks width rest
    else if c = '\t' && outside then none
    else if isBreak c then
      readBlankLines indent (m.after c) (breaks ++ [c]) (max width m.column) rest
    else some ⟨breaks, max width m.column, m, c :: rest⟩

/-- What has been read of a block. -/
structure Block where
  text : List Char
  /-- The line break behind the last line. -/
  lead : List Char
  /-- Whether the last line started with a blank. -/
  afterBlank : Bool
  /-- The empty lines behind it. -/
  below : BlankLines

/-- What stands between a line and the next one: in a folded block a single line feed is a
blank, unless one of the lines starts with a blank. -/
def Block.gap (b : Block) (literal blank : Bool) : List Char :=
  if !literal && b.lead = ['\n'] && !b.afterBlank && !blank then
    if b.below.breaks = [] then [' '] else b.below.breaks
  else b.lead ++ b.below.breaks

/-- Read the lines of a block, which start at column `indent`. -/
def readLines (literal : Bool) (indent : Nat) (b : Block) : Option Block :=
  match b.below.rest with
  | [] => some b
  | c :: rest =>
    if b.below.mark.column ≠ indent then some b
    else
      let line := (c :: rest).takeWhile (!isBreak ·)
      let ending := ((c :: rest).drop line.length).take 1
      let mark := (b.below.mark.afterAll line).afterAll ending
      match readBlankLines (some indent) mark [] 0 ((c :: rest).drop (line.length + ending.length))
      with
      | none => none
      | some below =>
        let next : Block := ⟨b.text ++ b.gap literal (isBlank c) ++ line, ending, isBlank c, below⟩
        if next.below.rest.length < b.below.rest.length then readLines literal indent next
        else none
termination_by b.below.rest.length

/-- Read a block from behind its indicator, inside a collection at column `outer - 1`. -/
def readBlock (literal : Bool) (outer : Nat) (m : Mark) (cs : List Char) : Option ScalarRead := do
  let header := cs.takeWhile (!isBreak ·)
  let (chomping, width, comment) ← blockHeader? header
  match comment.dropWhile isBlank with
  | [] | '#' :: _ => pure ()
  | _ => none
  let ending := (cs.drop header.length).take 1
  let mark := (m.afterAll header).afterAll ending
  let rest := cs.drop (header.length + ending.length)
  let fixed := width.map fun w => (outer - 1) + w
  let below ← readBlankLines fixed mark [] 0 rest
  let indent := fixed.getD (max below.width (max outer 1))
  let b ← readLines literal indent ⟨[], [], false, below⟩
  let ending := match chomping with
    | .strip => []
    | .clip => b.lead
    | .keep => b.lead ++ b.below.breaks
  some ⟨b.text ++ ending, b.below.mark, b.below.rest, true⟩

end QuantumWiring.Yaml
