import QuantumWiring.Engine.Settings

/-!
# Configuration

What a user may set: how the engine is reached, which endpoint a graph is compiled for, and how
much is logged.  Every setting has a default, so a configuration is always complete.
`Config.check` says which configurations are accepted, and `Config.engineSettings` is what an
accepted one means for the engine.
-/

namespace QuantumWiring

/-- How the engine is reached. -/
structure EngineSection where
  url : String
  circuitPath : String
  stabilizerPath : String
  correctionPath : String
  /-- The seconds that a whole exchange may take. -/
  timeout : Nat
  /-- The seconds that a connection may take. -/
  connectTimeout : Nat
  token : Option String
deriving DecidableEq

/-- What a graph is compiled for. -/
structure CompileSection where
  mode : EndpointMode
deriving DecidableEq

/-- What is logged. -/
structure LoggingSection where
  level : String
deriving DecidableEq

/-- The settings of the program. -/
structure Config where
  engine : EngineSection
  compile : CompileSection
  logging : LoggingSection
deriving DecidableEq

namespace EngineSection

def standard : EngineSection where
  url := EngineSettings.defaultUrl
  circuitPath := EngineSettings.defaultCircuitPath
  stabilizerPath := EngineSettings.defaultStabilizerPath
  correctionPath := EngineSettings.defaultCorrectionPath
  timeout := 60
  connectTimeout := 10
  token := none

/-- A number of seconds. -/
def secondsDecoder : Json.Decoder Nat := .nat UInt64.size "u64"

def decoder : Json.Decoder EngineSection :=
  .record "EngineSection"
    (.cons ⟨"url", .string, .anywhere standard.url⟩ <|
      .cons ⟨"circuit_path", .string, .anywhere standard.circuitPath⟩ <|
      .cons ⟨"stabilizer_path", .string, .anywhere standard.stabilizerPath⟩ <|
      .cons ⟨"qec_path", .string, .anywhere standard.correctionPath⟩ <|
      .cons ⟨"timeout_seconds", secondsDecoder, .anywhere standard.timeout⟩ <|
      .cons ⟨"connect_timeout_seconds", secondsDecoder, .anywhere standard.connectTimeout⟩ <|
      .cons ⟨"token", .optional .string, .anywhere standard.token⟩ <| .nil)
    fun (url, circuit, stabilizer, correction, timeout, connectTimeout, token, _) =>
      ⟨url, circuit, stabilizer, correction, timeout, connectTimeout, token⟩

def toJson (e : EngineSection) : Json.Value :=
  .object [("url", .string e.url), ("circuit_path", .string e.circuitPath),
    ("stabilizer_path", .string e.stabilizerPath), ("qec_path", .string e.correctionPath),
    ("timeout_seconds", .nat e.timeout), ("connect_timeout_seconds", .nat e.connectTimeout),
    ("token", .ofOption .string e.token)]

/-- The section for a log; whether there is a token is not shown. -/
def debugText (e : EngineSection) : String :=
  Text.record "EngineSection" [("url", Text.quoted e.url),
    ("circuit_path", Text.quoted e.circuitPath),
    ("stabilizer_path", Text.quoted e.stabilizerPath),
    ("qec_path", Text.quoted e.correctionPath),
    ("timeout_seconds", toString e.timeout),
    ("connect_timeout_seconds", toString e.connectTimeout),
    ("token", Text.quoted redacted)]

/-- The paths of the three endpoints. -/
def paths (e : EngineSection) : List String :=
  [e.circuitPath, e.stabilizerPath, e.correctionPath]

end EngineSection

namespace CompileSection

def standard : CompileSection := ⟨.circuit⟩

def decoder : Json.Decoder CompileSection :=
  .record "CompileSection" (.cons ⟨"mode", EndpointMode.decoder, .anywhere standard.mode⟩ .nil)
    fun (mode, _) => ⟨mode⟩

def toJson (c : CompileSection) : Json.Value := .object [("mode", c.mode.toJson)]

end CompileSection

namespace LoggingSection

def standard : LoggingSection := ⟨"warn"⟩

def decoder : Json.Decoder LoggingSection :=
  .record "LoggingSection" (.cons ⟨"level", .string, .anywhere standard.level⟩ .nil)
    fun (level, _) => ⟨level⟩

def toJson (l : LoggingSection) : Json.Value := .object [("level", .string l.level)]

/-- The names of the levels. -/
def levels : List String := ["trace", "debug", "info", "warn", "error"]

end LoggingSection

/-- What is wrong with the values of a configuration. -/
inductive ConfigViolation where
  | engineUrl (given : String)
  | endpointPath (given : String)
  | zeroTimeout
  | logLevel (given : String)
  | emptyToken
deriving DecidableEq

def ConfigViolation.message : ConfigViolation → String
  | .engineUrl given => s!"Invalid engine URL: {given}"
  | .endpointPath given => s!"Endpoint path must start with '/': {given}"
  | .zeroTimeout => "timeout_seconds must be greater than 0"
  | .logLevel given => s!"Invalid log level: {given}"
  | .emptyToken => "token must not be empty; omit the field to disable authentication"

namespace Config

/-- The configuration of a user who has set nothing. -/
def standard : Config := ⟨.standard, .standard, .standard⟩

def decoder : Json.Decoder Config :=
  .record "Config"
    (.cons ⟨"engine", EngineSection.decoder, .anywhere .standard⟩ <|
      .cons ⟨"compile", CompileSection.decoder, .anywhere .standard⟩ <|
      .cons ⟨"logging", LoggingSection.decoder, .anywhere .standard⟩ <| .nil)
    fun (engine, compile, logging, _) => ⟨engine, compile, logging⟩

def toJson (c : Config) : Json.Value :=
  .object [("engine", c.engine.toJson), ("compile", c.compile.toJson),
    ("logging", c.logging.toJson)]

/-- What is wrong with a configuration; of several things the first in the order URL, paths,
timeout, log level, token. -/
def violation? (c : Config) : Option ConfigViolation :=
  if !EngineSettings.isWebUrl c.engine.url then some (.engineUrl c.engine.url)
  else
    match EngineSettings.relativePath? c.engine.paths with
    | some path => some (.endpointPath path)
    | none =>
      if c.engine.timeout = 0 then some .zeroTimeout
      else if c.logging.level ∉ LoggingSection.levels then some (.logLevel c.logging.level)
      else if c.engine.token = some "" then some .emptyToken
      else none

/-- Accept a configuration whose values can be used. -/
def check (c : Config) : Except ConfigViolation Unit :=
  match c.violation? with
  | some v => .error v
  | none => .ok ()

/-- The settings of the engine. -/
def engineSettings (c : Config) : EngineSettings :=
  { EngineSettings.ofUrl c.engine.url with
    circuitPath := c.engine.circuitPath
    stabilizerPath := c.engine.stabilizerPath
    correctionPath := c.engine.correctionPath
    timeout := seconds c.engine.timeout
    connectTimeout := seconds c.engine.connectTimeout
    token := c.engine.token }

/-- The configuration with another engine. -/
def withUrl (c : Config) (url : String) : Config := { c with engine := { c.engine with url } }

end Config

end QuantumWiring
