import QuantumWiring.Yaml.Token

/-!
# YAML documents

A document is a tree of scalars, sequences and mappings.  `Document.ofText?` reads a text that
holds one document or none, which is an empty one.  A missing item, key or value is an empty
plain scalar.

An anchor gives its node a number, which is how many other names were given before, and an alias
refers to the number that its name has where the alias stands.  A number may so be given to
several nodes; it means the last of them.
-/

namespace QuantumWiring.Yaml

/-- A part of a document without parts. -/
structure Scalar where
  tag : Option Tag
  style : ScalarStyle
  text : String

/-- A part of a document. -/
inductive Node where
  | scalar (s : Scalar)
  | sequence (items : List Node)
  | mapping (pairs : List (Node × Node))
  | marked (number : Nat) (n : Node)
  | alias (number : Nat)

namespace Node

/-- The scalar where nothing is written. -/
def empty (tag : Option Tag) : Node := .scalar ⟨tag, .plain, ""⟩

mutual

/-- The nodes with numbers, in the order of the text. -/
def marks : Node → List (Nat × Node)
  | .scalar _ | .alias _ => []
  | .sequence items => marksOfItems items
  | .mapping pairs => marksOfPairs pairs
  | .marked number n => (number, n) :: marks n

def marksOfItems : List Node → List (Nat × Node)
  | [] => []
  | n :: rest => marks n ++ marksOfItems rest

def marksOfPairs : List (Node × Node) → List (Nat × Node)
  | [] => []
  | (k, v) :: rest => marks k ++ marks v ++ marksOfPairs rest

end

end Node

/-- The state of taking a document from its tokens. -/
structure Rest where
  tokens : List Token
  handles : Handles
  /-- The names of the anchors so far, each with its latest number. -/
  names : List (String × Nat)

/-- Takes a part of a document from the tokens. -/
abbrev Taker := StateT Rest Option

namespace Taker

/-- The next token. -/
def peek : Taker (Option Token) := do return (← get).tokens.head?

/-- Pass over the next token. -/
def pass : Taker Unit := modify fun r => { r with tokens := r.tokens.drop 1 }

/-- Pass over a token that has to come next. -/
def expect (is : Token → Bool) : Taker Unit := do
  match ← peek with
  | some t => if is t then pass else failure
  | none => failure

def isItem : Option Token → Bool
  | some .item => true
  | _ => false

def isValue : Option Token → Bool
  | some .value => true
  | _ => false

def isCloseBlock : Option Token → Bool
  | some .closeBlock => true
  | _ => false

/-- Whether a key or a value is missing before a token of a block mapping. -/
def endsPart : Option Token → Bool
  | some .key => true
  | t => isValue t || isCloseBlock t

/-- Whether a node is missing before a token of a flow sequence. -/
def endsItem : Option Token → Bool
  | some .comma | some .closeFlowSequence => true
  | _ => false

/-- Whether a node is missing before a token of a flow mapping. -/
def endsPair : Option Token → Bool
  | some .comma | some .closeFlowMapping => true
  | _ => false

/-! ## The properties of a node -/

/-- The anchor and the tag before a node. -/
def properties : Taker (Option String × Option TagWord) := do
  match ← peek with
  | some (.anchor a) =>
    pass
    match ← peek with
    | some (.tag t) => pass; return (some a, some t)
    | _ => return (some a, none)
  | some (.tag t) =>
    pass
    match ← peek with
    | some (.anchor a) => pass; return (some a, some t)
    | _ => return (none, some t)
  | _ => return (none, none)

/-- The tag that is written before a node. -/
def tag (word : TagWord) : Taker Tag := do (word.tag? (← get).handles : Option Tag)

/-- Give the next number to a name. -/
def mark (name : String) : Taker Nat := do
  let r ← get
  set { r with names := (name, r.names.length) :: r.names.filter (·.1 ≠ name) }
  return r.names.length

/-- The number that a name has. -/
def number (name : String) : Taker Nat := do ((← get).names.lookup name : Option Nat)

/-! ## Nodes -/

mutual

/-- A node.  The fuel bounds the number of steps; three for each token are enough. -/
def node (block indentless : Bool) : Nat → Taker Node
  | 0 => failure
  | fuel + 1 => do
    match ← peek with
    | some (.alias name) => pass; return .alias (← number name)
    | _ =>
      let (anchor, word) ← properties
      let tag ← word.mapM tag
      match anchor with
      | some name => return .marked (← mark name) (← content block indentless true tag fuel)
      | none => content block indentless word.isSome tag fuel

/-- What follows the properties of a node. -/
def content (block indentless hasProperties : Bool) (tag : Option Tag) : Nat → Taker Node
  | 0 => failure
  | fuel + 1 => do
    match ← peek, block, indentless with
    | some .item, _, true => return .sequence (← indentlessItems fuel)
    | some (.scalar style text), _, _ => pass; return .scalar ⟨tag, style, text⟩
    | some .openFlowSequence, _, _ => pass; return .sequence (← flowItems true fuel)
    | some .openFlowMapping, _, _ => pass; return .mapping (← flowPairs true fuel)
    | some .openBlockSequence, true, _ => pass; return .sequence (← blockItems fuel)
    | some .openBlockMapping, true, _ => pass; return .mapping (← blockPairs fuel)
    | _, _, _ => if hasProperties then return .empty tag else failure

/-- The items of a block sequence. -/
def blockItems : Nat → Taker (List Node)
  | 0 => failure
  | fuel + 1 => do
    match ← peek with
    | some .item =>
      pass
      let next ← peek
      let n ← if isItem next || isCloseBlock next then pure (.empty none)
        else node true false fuel
      return n :: (← blockItems fuel)
    | some .closeBlock => pass; return []
    | _ => failure

/-- The items of a sequence that stands at the column of the mapping around it. -/
def indentlessItems : Nat → Taker (List Node)
  | 0 => failure
  | fuel + 1 => do
    match ← peek with
    | some .item =>
      pass
      let next ← peek
      let n ← if isItem next || endsPart next then pure (.empty none) else node true false fuel
      return n :: (← indentlessItems fuel)
    | _ => return []

/-- A key or a value of a block mapping. -/
def blockPart : Nat → Taker Node
  | 0 => failure
  | fuel + 1 => do if endsPart (← peek) then return .empty none else node true true fuel

/-- The pairs of a block mapping. -/
def blockPairs : Nat → Taker (List (Node × Node))
  | 0 => failure
  | fuel + 1 => do
    match ← peek with
    | some .key =>
      pass
      let k ← blockPart fuel
      if isValue (← peek) then
        pass
        let v ← blockPart fuel
        return (k, v) :: (← blockPairs fuel)
      else return (k, .empty none) :: (← blockPairs fuel)
    | some .closeBlock => pass; return []
    | _ => failure

/-- The value behind a key in a flow collection, whose parts end before certain tokens. -/
def flowValue (ends : Option Token → Bool) : Nat → Taker Node
  | 0 => failure
  | fuel + 1 => do
    if isValue (← peek) then
      pass
      if ends (← peek) then return .empty none else node false false fuel
    else return .empty none

/-- The items of a flow sequence; an item may be a mapping of one pair.  If its key is missing,
the token that shows this counts as passed over. -/
def flowItems (first : Bool) : Nat → Taker (List Node)
  | 0 => failure
  | fuel + 1 => do
    match ← peek with
    | some .closeFlowSequence => pass; return []
    | _ =>
      if !first then expect fun | .comma => true | _ => false
      match ← peek with
      | some .closeFlowSequence => pass; return []
      | some .key =>
        pass
        let next ← peek
        let k ← if isValue next || endsItem next then do pass; pure (.empty none)
          else node false false fuel
        let v ← flowValue endsItem fuel
        return .mapping [(k, v)] :: (← flowItems false fuel)
      | _ =>
        let n ← node false false fuel
        return n :: (← flowItems false fuel)

/-- The pairs of a flow mapping; a pair may be a key alone. -/
def flowPairs (first : Bool) : Nat → Taker (List (Node × Node))
  | 0 => failure
  | fuel + 1 => do
    match ← peek with
    | some .closeFlowMapping => pass; return []
    | _ =>
      if !first then expect fun | .comma => true | _ => false
      match ← peek with
      | some .closeFlowMapping => pass; return []
      | some .key =>
        pass
        let next ← peek
        let k ← if isValue next || endsPair next then pure (.empty none)
          else node false false fuel
        let v ← flowValue endsPair fuel
        return (k, v) :: (← flowPairs false fuel)
      | _ =>
        let k ← node false false fuel
        return (k, .empty none) :: (← flowPairs false fuel)

end

/-! ## Documents -/

/-- The directives before a document: the version at most once, and each handle at most once. -/
def directives (versioned : Bool) (hs : Handles) : List Token → Option (Handles × List Token)
  | .version major minor :: rest =>
    if versioned ∨ major ≠ 1 ∨ (minor ≠ 1 ∧ minor ≠ 2) then none
    else directives true hs rest
  | .handle name tag :: rest =>
    if (hs.lookup name).isSome then none else directives versioned (hs ++ [(name, tag)]) rest
  | rest => some (hs, rest)

/-- Whether a token starts or ends a document. -/
def isBoundary : Token → Bool
  | .version _ _ | .handle _ _ | .documentStart | .documentEnd => true
  | _ => false

/-- The only document of a text.  Without a line that starts it, it may not be empty. -/
def document : Taker Node := do
  let r ← get
  match r.tokens with
  | [] => return .empty none
  | t :: _ =>
    if isBoundary t then
      let (handles, tokens) ← (directives false [] r.tokens : Option (Handles × List Token))
      set { r with tokens, handles := handles.complete }
      expect fun | .documentStart => true | _ => false
    let n ← if isBoundary t && (← peek).all isBoundary then pure (.empty none)
      else node true false (3 * r.tokens.length + 3)
    if (← get).tokens.all fun | .documentEnd => true | _ => false then return n else failure

end Taker

/-- A document, looked at from one of its nodes. -/
structure Document where
  /-- The node, which is no alias and has no number. -/
  root : Node
  /-- The nodes with numbers, the last in the text first. -/
  marks : List (Nat × Node)

namespace Document

/-- The document at another of its nodes; an alias leads to the node that it stands for. -/
def part (d : Document) : Node → Document
  | .alias number => { d with root := (d.marks.lookup number).getD (.empty none) }
  | .marked _ n => { d with root := n }
  | n => { d with root := n }

/-- The document of a text, unless the text is malformed or holds several. -/
def ofText? (s : String) : Option Document := do
  let tokens ← tokens? s
  let (n, _) ← Taker.document.run ⟨tokens, Handles.complete [], []⟩
  some (part ⟨n, n.marks.reverse⟩ n)

end Document

end QuantumWiring.Yaml
