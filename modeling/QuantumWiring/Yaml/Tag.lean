import QuantumWiring.Json.Token
import QuantumWiring.Yaml.Text

/-!
# Tags of a YAML text

A tag is written in full between `!<` and `>`, or as a handle and a suffix; a directive may say
what a handle stands for.  Characters outside a small set are written as octets, `%` and two
hexadecimal digits each, and a tag is the octets that it spells, up to the first zero.
-/

namespace QuantumWiring.Yaml

/-- The octets of a tag. -/
abbrev Tag := List UInt8

namespace Tag

def ofString (s : String) : Tag := s.toUTF8.toList

/-- What the handle `!!` stands for by itself. -/
def space : Tag := ofString "tag:yaml.org,2002:"

def null : Tag := space ++ ofString "null"

def int : Tag := space ++ ofString "int"

/-- The name behind the exclamation mark of a local tag. -/
def localName? : Tag → Option String
  | 33 :: name => String.fromUTF8? ⟨name.toArray⟩
  | _ => none

end Tag

/-- What the handles of a document stand for. -/
abbrev Handles := List (String × Tag)

/-- The handles with those that stand for something in every document. -/
def Handles.complete (hs : Handles) : Handles := hs ++ [("!", Tag.ofString "!"), ("!!", Tag.space)]

/-- A tag as it is written: a handle, empty for a tag in full, and what follows it. -/
structure TagWord where
  handle : String
  suffix : Tag

/-- The tag that a word means, if its handle stands for something. -/
def TagWord.tag? (w : TagWord) (hs : Handles) : Option Tag :=
  if w.handle = "" then some w.suffix else (hs.lookup w.handle).map (· ++ w.suffix)

/-! ## Reading tags -/

/-- Whether a character may stand in a handle or in the name of an anchor. -/
def isNameChar (c : Char) : Bool := c.isAlphanum || c = '_' || c = '-'

/-- Whether a character stands for itself in a tag; `wide` is for places where flow indicators
do so as well. -/
def isTagChar (wide : Bool) (c : Char) : Bool :=
  isNameChar c || ";/?:@&=+$.!~*'()".toList.contains c || (wide && ",[]".toList.contains c)

/-- How many octets of a character are still missing after one. -/
def octetsMissing? (missing octet : Nat) : Option Nat :=
  if missing ≠ 0 then if octet / 64 = 2 then some (missing - 1) else none
  else if octet < 0x80 then some 0
  else if octet / 32 = 6 then some 1
  else if octet / 16 = 14 then some 2
  else if octet / 8 = 30 then some 3
  else none

/-- The octets that the beginning of a text spells, and what follows; of a character that has
been begun, some octets may be missing. -/
def takeOctets (wide : Bool) (missing : Nat) : List Char → Option (List UInt8 × List Char)
  | '%' :: a :: b :: rest => do
    let octet := (← Json.hexValue? a) * 16 + (← Json.hexValue? b)
    let (octets, rest) ← takeOctets wide (← octetsMissing? missing octet) rest
    some (octet.toUInt8 :: octets, rest)
  | c :: rest => do
    if missing ≠ 0 then none
    if isTagChar wide c then
      let (octets, rest) ← takeOctets wide 0 rest
      some (c.toNat.toUInt8 :: octets, rest)
    else some ([], c :: rest)
  | [] => if missing = 0 then some ([], []) else none

/-- The tag that one octet or more spell. -/
def takeTag (wide : Bool) (cs : List Char) : Option (Tag × List Char) := do
  let (octets, rest) ← takeOctets wide 0 cs
  if octets = [] then none else some (octets.takeWhile (· ≠ 0), rest)

/-- The tag at the head of a text, and what follows it. -/
def tagWord? : List Char → Option (TagWord × List Char)
  | '!' :: '<' :: rest => do
    match ← takeTag true rest with
    | (tag, '>' :: rest) => some (⟨"", tag⟩, rest)
    | _ => none
  | '!' :: rest =>
    let word := rest.takeWhile isNameChar
    match rest.drop word.length with
    | '!' :: rest => (takeTag false rest).map fun (tag, rest) =>
      (⟨String.ofList ('!' :: word ++ ['!']), tag⟩, rest)
    | _ => (takeOctets false 0 rest).map fun (octets, rest) =>
      match octets.takeWhile (· ≠ 0) with
      | [] => (⟨"", Tag.ofString "!"⟩, rest)
      | tag => (⟨"!", tag⟩, rest)
  | _ => none

/-! ## Directives -/

/-- The number of a version, and what follows it. -/
def versionNumber? (cs : List Char) : Option (Nat × List Char) :=
  let digits := cs.takeWhile Char.isDigit
  if digits = [] ∨ 9 < digits.length then none
  else some (digits.foldl (fun n c => n * 10 + (c.toNat - 48)) 0, cs.drop digits.length)

/-- The two numbers of a version of the format, and what follows them. -/
def version? (cs : List Char) : Option ((Nat × Nat) × List Char) := do
  match ← versionNumber? (cs.dropWhile isBlank) with
  | (major, '.' :: rest) =>
    let (minor, rest) ← versionNumber? rest
    some ((major, minor), rest)
  | _ => none

/-- A handle with what it stands for, and what follows. -/
def handle? (cs : List Char) : Option ((String × Tag) × List Char) :=
  match cs.dropWhile isBlank with
  | '!' :: rest => do
    let word := rest.takeWhile isNameChar
    let (handle, rest) ← match word, rest.drop word.length with
      | word, '!' :: rest => some (String.ofList ('!' :: word ++ ['!']), rest)
      | [], rest => some ("!", rest)
      | _, _ => none
    if !rest.head?.any isBlank then none
    let (tag, rest) ← takeTag true (rest.dropWhile isBlank)
    if atGap rest then some ((handle, tag), rest) else none
  | _ => none

end QuantumWiring.Yaml
