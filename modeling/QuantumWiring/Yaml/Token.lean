import QuantumWiring.Yaml.Scalar
import QuantumWiring.Yaml.Tag

/-!
# Tokens of a YAML text

`tokens?` cuts a text into scalars, indicators and the edges of block collections, which show
only in the indentation.  A block collection opens at a column beyond that of the collection
around it and closes before the first token at a lesser column.  A key without indicator is
known by the colon behind it; so the place where a key may have started is kept, and its tokens
are put in once the colon comes.
-/

namespace QuantumWiring.Yaml

/-- A piece of a text. -/
inductive Token where
  | openBlockSequence
  | openBlockMapping
  | closeBlock
  | openFlowSequence
  | closeFlowSequence
  | openFlowMapping
  | closeFlowMapping
  /-- The dash before an item. -/
  | item
  | comma
  | key
  | value
  /-- A directive that says which version of the format is meant. -/
  | version (major minor : Nat)
  /-- A directive that says what a handle stands for. -/
  | handle (name : String) (tag : Tag)
  | documentStart
  | documentEnd
  | anchor (name : String)
  | alias (name : String)
  | tag (word : TagWord)
  | scalar (style : ScalarStyle) (text : String)

/-- Where a key without indicator may have started. -/
structure PossibleKey where
  /-- How many tokens come before it. -/
  place : Nat
  mark : Mark
  /-- Whether the text is malformed if it is no key. -/
  required : Bool

/-- How many bytes a key may take, up to its colon. -/
def keyLength : Nat := 1024

/-- The state of cutting a text. -/
structure Cutting where
  rest : List Char
  mark : Mark
  tokens : List Token
  /-- The columns of the open block collections, innermost first. -/
  indents : List Nat
  key : Option PossibleKey
  /-- The keys outside the open flow collections, innermost first. -/
  outerKeys : List (Option PossibleKey)
  /-- Whether a key may start here. -/
  keyAllowed : Bool

namespace Cutting

def start (cs : List Char) : Cutting := ⟨cs, .start, [], [], none, [], true⟩

def inFlow (s : Cutting) : Bool := !s.outerKeys.isEmpty

/-- The least column inside the innermost block collection. -/
def innerColumn (s : Cutting) : Nat := (s.indents.head?.map (· + 1)).getD 0

def add (t : Token) (s : Cutting) : Cutting := { s with tokens := s.tokens ++ [t] }

/-- Pass over characters. -/
def skip (n : Nat) (s : Cutting) : Cutting :=
  { s with rest := s.rest.drop n, mark := s.mark.afterAll (s.rest.take n) }

/-- Say whether a key may start next. -/
def allowKey (allowed : Bool) (s : Cutting) : Cutting := { s with keyAllowed := allowed }

/-! ## Indentation -/

/-- Open a block collection at a column beyond the innermost one; its token goes to a place among
the tokens. -/
def openBlock (t : Token) (column place : Nat) (s : Cutting) : Cutting :=
  if s.inFlow || column < s.innerColumn then s
  else { s with indents := column :: s.indents, tokens := s.tokens.insertIdx place t }

/-- Close the block collections at columns that satisfy a condition. -/
def closeBlocks (closes : Nat → Bool) (s : Cutting) : Cutting :=
  if s.inFlow then s
  else
    { s with
      indents := s.indents.dropWhile closes
      tokens := s.tokens ++ (s.indents.takeWhile closes).map fun _ => .closeBlock }

/-! ## Keys -/

/-- Give up a possible key. -/
def dropKey (s : Cutting) : Option Cutting :=
  if s.key.any (·.required) then none else some { s with key := none }

/-- Note that a key may start here. -/
def markKey (s : Cutting) : Option Cutting :=
  if s.keyAllowed then do
    let required := !s.inFlow && s.indents.head? = some s.mark.column
    let s' ← s.dropKey
    some { s' with key := some ⟨s.tokens.length, s.mark, required⟩ }
  else some s

/-- Whether a possible key can no longer be one, because the line has ended or is too long. -/
def isStale (m : Mark) (k : PossibleKey) : Bool :=
  k.mark.line < m.line || k.mark.index + keyLength < m.index

/-- Give up the possible keys that can no longer be one. -/
def dropStaleKeys (s : Cutting) : Option Cutting :=
  let fresh (k : Option PossibleKey) : Option PossibleKey := k.filter (!isStale s.mark ·)
  if (s.key :: s.outerKeys).any fun k => k.any fun k => isStale s.mark k && k.required then none
  else some { s with key := fresh s.key, outerKeys := s.outerKeys.map fresh }

/-! ## Between the tokens -/

/-- Pass over blanks, comments and line breaks, and over a byte order mark that starts a line.  A
tab may not stand where it could be meant as indentation. -/
def passGap (flow : Bool) : Bool → Bool → Mark → List Char → Bool × Mark × List Char
  | keyAllowed, _, m, [] => (keyAllowed, m, [])
  | keyAllowed, comment, m, c :: rest =>
    if isBreak c then passGap flow (keyAllowed || !flow) false (m.after c) rest
    else if comment || c = ' ' || (c = '\t' && (flow || !keyAllowed)) ||
        (c = '\ufeff' && m.column = 0) then
      passGap flow keyAllowed comment (m.after c) rest
    else if c = '#' then passGap flow keyAllowed true (m.after c) rest
    else (keyAllowed, m, c :: rest)

/-- Go on to the next token. -/
def toToken (s : Cutting) : Option Cutting := do
  let (keyAllowed, mark, rest) := passGap s.inFlow s.keyAllowed false s.mark s.rest
  let s ← { s with keyAllowed, mark, rest }.dropStaleKeys
  some (s.closeBlocks (mark.column < ·))

/-! ## The tokens one by one -/

/-- A line that starts or ends a document. -/
def cutMarker (s : Cutting) : Option Cutting := do
  let s ← (s.closeBlocks fun _ => true).dropKey
  let t := if s.rest.head? = some '-' then .documentStart else .documentEnd
  some ((s.add t).skip 3 |>.allowKey false)

/-- The directive at the head of a text, and what follows its line. -/
def directive? (cs : List Char) : Option (Token × List Char) := do
  let name := (cs.drop 1).takeWhile isNameChar
  let cs := cs.drop (1 + name.length)
  if !atGap cs then none
  let (t, cs) ← match String.ofList name with
    | "YAML" => (version? cs).map fun (v, rest) => (Token.version v.1 v.2, rest)
    | "TAG" => (handle? cs).map fun (h, rest) => (Token.handle h.1 h.2, rest)
    | _ => none
  let cs := cs.dropWhile isBlank
  let cs := if cs.head? = some '#' then cs.dropWhile (!isBreak ·) else cs
  match cs with
  | [] => some (t, [])
  | c :: rest => if isBreak c then some (t, rest) else none

def cutDirective (s : Cutting) : Option Cutting := do
  let s ← (s.closeBlocks fun _ => true).dropKey
  let (t, rest) ← directive? s.rest
  some ((s.add t).skip (s.rest.length - rest.length) |>.allowKey false)

def openFlow (t : Token) (s : Cutting) : Option Cutting := do
  let s ← s.markKey
  some { (s.add t).skip 1 |>.allowKey true with key := none, outerKeys := s.key :: s.outerKeys }

def closeFlow (t : Token) (s : Cutting) : Option Cutting := do
  let s ← s.dropKey
  let s := match s.outerKeys with
    | k :: ks => { s with key := k, outerKeys := ks }
    | [] => s
  some ((s.add t).skip 1 |>.allowKey false)

def cutComma (s : Cutting) : Option Cutting := do
  let s ← s.dropKey
  some ((s.add .comma).skip 1 |>.allowKey true)

/-- An indicator that starts a line of a block collection. -/
def cutIndicator (block indicator : Token) (s : Cutting) : Option Cutting := do
  if !s.inFlow && !s.keyAllowed then none
  let s ← (s.openBlock block s.mark.column s.tokens.length).dropKey
  some ((s.add indicator).skip 1)

def cutItem (s : Cutting) : Option Cutting :=
  (s.cutIndicator .openBlockSequence .item).map (allowKey true)

def cutKey (s : Cutting) : Option Cutting :=
  (s.cutIndicator .openBlockMapping .key).map fun s => s.allowKey !s.inFlow

/-- The colon behind a key. -/
def cutValue (s : Cutting) : Option Cutting :=
  match s.key with
  | some k =>
    let s := { s with key := none, tokens := s.tokens.insertIdx k.place .key }
    let s := s.openBlock .openBlockMapping k.mark.column k.place
    some ((s.add .value).skip 1 |>.allowKey false)
  | none =>
    if !s.inFlow && !s.keyAllowed then none
    else
      let s := s.openBlock .openBlockMapping s.mark.column s.tokens.length
      some ((s.add .value).skip 1 |>.allowKey !s.inFlow)

/-- Whether an anchor or an alias may end before what follows. -/
def endsName (cs : List Char) : Bool :=
  atGap cs || cs.head?.any fun c => "?:,]\x7d%@`".toList.contains c

/-- An anchor or an alias. -/
def cutName (make : String → Token) (s : Cutting) : Option Cutting := do
  let s ← s.markKey
  let name := (s.rest.drop 1).takeWhile isNameChar
  let s := (s.skip (1 + name.length)).allowKey false
  if name = [] || !endsName s.rest then none
  some (s.add (make (String.ofList name)))

def cutTag (s : Cutting) : Option Cutting := do
  let s ← s.markKey
  let (word, rest) ← tagWord? s.rest
  let s := (s.skip (s.rest.length - rest.length)).allowKey false
  if !atGap s.rest && !(s.inFlow && s.rest.head? = some ',') then none
  some (s.add (.tag word))

/-- Take over a scalar. -/
def addScalar (style : ScalarStyle) (r : ScalarRead) (s : Cutting) : Cutting :=
  { s.add (.scalar style (String.ofList r.text)) with
    mark := r.mark, rest := r.rest, keyAllowed := r.broken }

def cutBlockScalar (literal : Bool) (s : Cutting) : Option Cutting := do
  let s ← s.dropKey
  let r ← readBlock literal s.innerColumn (s.skip 1).mark (s.skip 1).rest
  some (s.addScalar (if literal then .literal else .folded) r)

/-- A scalar in quotes of the given kind. -/
def cutQuoted (double : Bool) (s : Cutting) : Option Cutting := do
  let s ← s.markKey
  let s' := s.skip 1
  let r ← if double then readDouble s'.mark .none [] .none s'.rest
    else readSingle s'.mark .none [] s'.rest
  some (s.addScalar .quoted r)

/-- Whether a plain scalar may start with a character. -/
def startsPlain (inFlow : Bool) (c : Char) (rest : List Char) : Bool :=
  !(isBlank c || "-?:,[]\x7b\x7d#&*!|>'\"%@`".toList.contains c) ||
    (c = '-' && !rest.head?.any isBlank) ||
    (!inFlow && (c = '?' || c = ':') && !atGap rest)

def cutPlain (s : Cutting) : Option Cutting := do
  let s ← s.markKey
  let r ← readPlain s.inFlow s.innerColumn s.mark .none [] s.rest
  some (s.addScalar .plain r)

/-- Cut the token that the text goes on with. -/
def cut (s : Cutting) : Option Cutting :=
  match s.rest with
  | [] => none
  | c :: rest =>
    if s.mark.column = 0 && c = '%' then s.cutDirective
    else if atMarker s.mark s.rest then s.cutMarker
    else if c = '[' then s.openFlow .openFlowSequence
    else if c = '\x7b' then s.openFlow .openFlowMapping
    else if c = ']' then s.closeFlow .closeFlowSequence
    else if c = '\x7d' then s.closeFlow .closeFlowMapping
    else if c = ',' then s.cutComma
    else if c = '-' && atGap rest then s.cutItem
    else if c = '?' && (s.inFlow || atGap rest) then s.cutKey
    else if c = ':' && (s.inFlow || atGap rest) then s.cutValue
    else if c = '*' then s.cutName .alias
    else if c = '&' then s.cutName .anchor
    else if c = '!' then s.cutTag
    else if c = '|' && !s.inFlow then s.cutBlockScalar true
    else if c = '>' && !s.inFlow then s.cutBlockScalar false
    else if c = '\'' then s.cutQuoted false
    else if c = '"' then s.cutQuoted true
    else if startsPlain s.inFlow c rest then s.cutPlain
    else none

/-- Cut the whole text.  Every token takes a character. -/
def run (s : Cutting) : Option (List Token) :=
  match s.toToken with
  | none => none
  | some t =>
    if t.rest = [] then ((t.closeBlocks fun _ => true).dropKey).map (·.tokens)
    else
      match t.cut with
      | none => none
      | some t => if t.rest.length < s.rest.length then run t else none
termination_by s.rest.length

end Cutting

/-- The tokens of a text, unless it is malformed. -/
def tokens? (s : String) : Option (List Token) :=
  (prepare? s).bind fun cs => (Cutting.start cs).run

end QuantumWiring.Yaml
