import QuantumWiring.Json.Document
import QuantumWiring.Json.Token

/-!
# Reading a document

`read` builds the document of a text token by token.  The containers that are still open stand
on a stack, innermost first, and one `Awaited` says what may come next.  At a token that may not
come, or at the end of the text, the document is closed over the fault.
-/

namespace QuantumWiring.Json

/-- A container that is still open, with what it holds so far in reverse. -/
inductive Frame where
  | array (items : List Document)
  /-- An object, with the name of the field whose value is awaited. -/
  | object (fields : List (Option String × Document)) (name : Option String)

/-- What may come next. -/
inductive Awaited where
  | value
  /-- The first item of an array, or its end. -/
  | firstItem
  /-- The first name in an object, or its end. -/
  | firstName
  | name
  | colon
  /-- A comma or the end of the innermost container. -/
  | separator

/-- A document read from a text, and whether more than blanks follow it. -/
structure Reading where
  document : Document
  trailing : Bool

/-- Put a finished document into the innermost container. -/
def Frame.add (d : Document) : Frame → Frame
  | .array items => .array (d :: items)
  | .object fields name => .object ((name, d) :: fields) none

/-- The document of a container with what it holds. -/
def Frame.document : Frame → Document
  | .array items => .array items.reverse
  | .object fields _ => .object fields.reverse

/-- Close all containers over a fault in the innermost one. -/
def closeOver (stack : List Frame) : Document :=
  stack.foldl (fun d frame => (frame.add d).document) .fault

/-- What is awaited once a value is complete, or the whole reading if no container is open. -/
def complete (d : Document) : List Frame → Document ⊕ List Frame
  | [] => .inl d
  | frame :: stack => .inr (frame.add d :: stack)

/-- Set the name of the field whose value comes next. -/
def nameField (name : Option String) : List Frame → List Frame
  | .object fields _ :: stack => .object fields name :: stack
  | stack => stack

/-- The value that a token is by itself. -/
def Token.leaf? : Token → Option Document
  | .null => some .null
  | .bool b => some (.bool b)
  | .number n => some (.number n)
  | .string s => some (.string s)
  | _ => none

/-- Whether a token closes the innermost container. -/
def closes : Token → List Frame → Bool
  | .closeArray, .array _ :: _ => true
  | .closeObject, .object _ _ :: _ => true
  | _, _ => false

/-- What a token does to the stack where a value may start. -/
def openOrLeaf? (t : Token) (stack : List Frame) :
    Option (Document ⊕ (Awaited × List Frame)) :=
  match t with
  | .openArray => some (.inr (.firstItem, .array [] :: stack))
  | .openObject => some (.inr (.firstName, .object [] none :: stack))
  | t => t.leaf?.map fun d =>
    match complete d stack with
    | .inl d => .inl d
    | .inr stack => .inr (.separator, stack)

/-- Close the innermost container. -/
def closeInnermost : List Frame → Document ⊕ (Awaited × List Frame)
  | [] => .inl .fault
  | frame :: stack =>
    match complete frame.document stack with
    | .inl d => .inl d
    | .inr stack => .inr (.separator, stack)

/-- What a token does: it completes the document, or changes what is awaited and the stack, or
may not come. -/
def step? (t : Token) (stack : List Frame) : Awaited → Option (Document ⊕ (Awaited × List Frame))
  | .value => openOrLeaf? t stack
  | .firstItem => if closes t stack then some (closeInnermost stack) else openOrLeaf? t stack
  | .firstName =>
    if closes t stack then some (closeInnermost stack)
    else match t with
      | .string name => some (.inr (.colon, nameField name stack))
      | _ => none
  | .name => match t with
    | .string name => some (.inr (.colon, nameField name stack))
    | _ => none
  | .colon => match t with
    | .colon => some (.inr (.value, stack))
    | _ => none
  | .separator =>
    if closes t stack then some (closeInnermost stack)
    else match t, stack with
      | .comma, .array _ :: _ => some (.inr (.value, stack))
      | .comma, .object _ _ :: _ => some (.inr (.name, stack))
      | _, _ => none

/-- Read on from a stack of open containers. -/
def readFrom : Awaited → List Frame → List Token → Reading
  | _, stack, [] => ⟨closeOver stack, false⟩
  | awaited, stack, t :: rest =>
    match step? t stack awaited with
    | none => ⟨closeOver stack, false⟩
    | some (.inl d) => ⟨d, !rest.isEmpty⟩
    | some (.inr (awaited, stack)) => readFrom awaited stack rest

/-- Read a text. -/
def read (s : String) : Reading := readFrom .value [] (tokens s)

end QuantumWiring.Json
