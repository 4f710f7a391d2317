import QuantumWiring.Engine.Fault
import QuantumWiring.Text.Affix
import QuantumWiring.Text.Quoted

/-!
# Settings of an engine

Where an engine is reached, how long it may take and the token that it asks for.  Slashes at the
end of the base URL are dropped when settings are made.  `EngineSettings.check` accepts an http
or https URL, a timeout that is not zero and paths that start with a slash.
-/

namespace QuantumWiring

/-- A span of time in milliseconds. -/
abbrev Milliseconds := Nat

/-- A number of seconds as a span. -/
def seconds (n : Nat) : Milliseconds := n * 1000

/-- Three digits behind a point, without the zeros at their end. -/
def fractionText (n : Nat) : List Char :=
  let ds := Nat.toDigits 10 n
  Text.dropTrailing '0' (List.replicate (3 - ds.length) '0' ++ ds)

/-- A span in the greatest unit that it reaches. -/
def durationText (t : Milliseconds) : String :=
  if 1000 ≤ t then
    let fraction := if t % 1000 = 0 then [] else '.' :: fractionText (t % 1000)
    toString (t / 1000) ++ String.ofList fraction ++ "s"
  else if 0 < t then toString t ++ "ms"
  else "0ns"

/-- How to reach an engine. -/
structure EngineSettings where
  baseUrl : String
  circuitPath : String
  stabilizerPath : String
  correctionPath : String
  /-- The time that a whole exchange may take. -/
  timeout : Milliseconds
  /-- The time that a connection may take. -/
  connectTimeout : Milliseconds
  token : Option String
deriving DecidableEq

/-- What stands for a token that is not shown. -/
def redacted : String := "[REDACTED]"

namespace EngineSettings

def defaultUrl : String := "http://127.0.0.1:3000"

def defaultCircuitPath : String := "/quantum/circuit/simulate"

def defaultStabilizerPath : String := "/quantum/stabilizer/simulate"

def defaultCorrectionPath : String := "/quantum/qec/simulate"

/-- Settings for a URL, with the default paths and times and without token. -/
def ofUrl (url : String) : EngineSettings where
  baseUrl := String.ofList (Text.dropTrailing '/' url.toList)
  circuitPath := defaultCircuitPath
  stabilizerPath := defaultStabilizerPath
  correctionPath := defaultCorrectionPath
  timeout := seconds 60
  connectTimeout := seconds 10
  token := none

/-- The paths of the three endpoints. -/
def paths (s : EngineSettings) : List String :=
  [s.circuitPath, s.stabilizerPath, s.correctionPath]

/-- Whether a URL names one of the two schemes. -/
def isWebUrl (url : String) : Bool :=
  Text.beginsWith url "http://" || Text.beginsWith url "https://"

/-- The first path that does not start with a slash. -/
def relativePath? (paths : List String) : Option String :=
  paths.find? (!Text.beginsWith · "/")

/-- Check that the settings can be used. -/
def check (s : EngineSettings) : Except SettingsFault Unit :=
  if !isWebUrl s.baseUrl then .error (.url s.baseUrl)
  else if s.timeout = 0 then .error .zeroTimeout
  else
    match relativePath? s.paths with
    | some path => .error (.path path)
    | none => .ok ()

/-- The settings for a log, without the token. -/
def debugText (s : EngineSettings) : String :=
  Text.record "EngineConfig" [("base_url", Text.quoted s.baseUrl),
    ("circuit_path", Text.quoted s.circuitPath),
    ("stabilizer_path", Text.quoted s.stabilizerPath),
    ("qec_path", Text.quoted s.correctionPath),
    ("timeout", durationText s.timeout),
    ("connect_timeout", durationText s.connectTimeout),
    ("token", if s.token.isSome then "Some(" ++ Text.quoted redacted ++ ")" else "None")]

/-- The address of an endpoint. -/
def address (s : EngineSettings) (path : String) : String :=
  s.baseUrl ++ "/" ++ String.ofList (Text.dropLeading '/' path.toList)

end EngineSettings

end QuantumWiring
