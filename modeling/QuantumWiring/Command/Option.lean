import QuantumWiring.Text.Affix

/-!
# Command line options

An option has a long name and perhaps a letter.  A flag stands alone; any other option takes a
value, behind an equals sign, directly behind its letter, or as the next argument.  A next
argument that looks like an option is no value, except for a single dash.  Letters of flags may
be put together behind one dash.
-/

namespace QuantumWiring.Command

/-- Why the arguments are not carried out. -/
inductive Stop where
  /-- They make no sense. -/
  | usage
  /-- They ask what the program or one of its commands is for. -/
  | help (command : Option String)
  | version
deriving DecidableEq

/-- What an option does. -/
inductive OptionKind where
  /-- It is a flag that asks for something else than a run. -/
  | stop (stop : Stop)
  /-- It is a flag that may be given many times. -/
  | count
  /-- It takes a value, once. -/
  | single
  /-- It takes a value each time. -/
  | repeated
deriving DecidableEq

def OptionKind.isFlag : OptionKind → Bool
  | .stop _ | .count => true
  | .single | .repeated => false

/-- An option of a command. -/
structure CommandOption where
  name : String
  letter : Option Char
  kind : OptionKind
  /-- Which values make sense. -/
  accepts : String → Bool
  /-- Whether the command cannot do without it. -/
  needed : Bool
  description : String

/-- What an option line was given, in order. -/
abbrev Given := List (String × String)

/-- An option that waits for its value. -/
abbrev Waiting := Option CommandOption

namespace CommandOption

/-- A value for an option. -/
def give (o : CommandOption) (value : String) (given : Given) : Except Stop Given :=
  if !o.accepts value || (o.kind = .single && given.any (·.1 = o.name)) then .error .usage
  else .ok (given ++ [(o.name, value)])

/-- Take a flag into account. -/
def raise (o : CommandOption) (given : Given) : Except Stop Given :=
  match o.kind with
  | .stop stop => .error stop
  | _ => .ok (given ++ [(o.name, "")])

/-- Read the letters behind one dash. -/
def readLetters (options : List CommandOption) :
    List Char → Given → Except Stop (Given × Waiting)
  | [], given => .ok (given, none)
  | c :: rest, given =>
    match options.find? (·.letter = some c) with
    | none => .error .usage
    | some o =>
      if o.kind.isFlag then do readLetters options rest (← o.raise given)
      else
        match rest with
        | [] => .ok (given, some o)
        | '=' :: value | value => do
          let given ← o.give (String.ofList value) given
          .ok (given, none)

/-- Read what stands behind two dashes. -/
def readLong (options : List CommandOption) (word : List Char) (given : Given) :
    Except Stop (Given × Waiting) :=
  let (name, value) := match Text.cut? '=' word with
    | some (name, value) => (name, some value)
    | none => (word, none)
  match options.find? (·.name = String.ofList name) with
  | none => .error .usage
  | some o =>
    match o.kind.isFlag, value with
    | true, none => do return (← o.raise given, none)
    | true, some _ => .error .usage
    | false, none => .ok (given, some o)
    | false, some value => do return (← o.give (String.ofList value) given, none)

/-- Read arguments up to the name of a command, which comes with the arguments behind it. -/
def readArguments (options : List CommandOption) (isCommand : String → Bool) :
    List String → Waiting → Given → Except Stop (Given × Option (String × List String))
  | [], none, given => .ok (given, none)
  | [], some _, _ => .error .usage
  | word :: rest, waiting, given =>
    match word.toList, waiting with
    | ['-', '-'], none => if rest = [] then .ok (given, none) else .error .usage
    | '-' :: _ :: _, some _ => .error .usage
    | '-' :: '-' :: name, none => do
      let (given, waiting) ← readLong options name given
      readArguments options isCommand rest waiting given
    | '-' :: c :: letters, none => do
      let (given, waiting) ← readLetters options (c :: letters) given
      readArguments options isCommand rest waiting given
    | _, some o => do
      let given ← o.give word given
      readArguments options isCommand rest none given
    | _, none => if isCommand word then .ok (given, some (word, rest)) else .error .usage

end CommandOption

namespace Given

/-- The values of an option, in order. -/
def values (given : Given) (name : String) : List String :=
  given.filterMap fun (n, value) => if n = name then some value else none

/-- The value of an option that may be given once. -/
def value? (given : Given) (name : String) : Option String := (given.values name).head?

end Given

end QuantumWiring.Command
