import QuantumWiring.Config.Environment
import QuantumWiring.Files.Basic
import QuantumWiring.Yaml.Decoder

/-!
# Configuration files

A configuration file is a YAML document with the sections `engine`, `compile` and `logging`.
The file that a user names has to be there; the one in the home folder is read if it is.  A file
is accepted by itself before the environment overrides settings, and the outcome is accepted once
more.
-/

namespace QuantumWiring

open Yaml.Decoder (setting)

namespace EngineSection

def seconds : Yaml.Decoder Nat := .count UInt64.size

def ofDocument? : Yaml.Decoder EngineSection :=
  .record [setting "url" .text fun url e => { e with url },
    setting "circuit_path" .text fun path e => { e with circuitPath := path },
    setting "stabilizer_path" .text fun path e => { e with stabilizerPath := path },
    setting "qec_path" .text fun path e => { e with correctionPath := path },
    setting "timeout_seconds" seconds fun n e => { e with timeout := n },
    setting "connect_timeout_seconds" seconds fun n e => { e with connectTimeout := n },
    setting "token" (.optional .text) fun token e => { e with token }] standard

end EngineSection

def CompileSection.ofDocument? : Yaml.Decoder CompileSection :=
  .record [setting "mode" (.variant (EndpointMode.all.map fun m => (m.name, m)))
    fun mode c => { c with mode }] standard

def LoggingSection.ofDocument? : Yaml.Decoder LoggingSection :=
  .record [setting "level" .text fun level l => { l with level }] standard

/-- Why there is no configuration. -/
inductive ConfigFault where
  | unreadable (path : String) (fault : FileFault)
  | malformed (path : String)
  | invalid (violation : ConfigViolation)
deriving DecidableEq

def ConfigFault.message : ConfigFault → String
  | .unreadable path fault => "IO error: " ++ path ++ ": " ++ fault.message
  | .malformed path => "Parse error: " ++ path ++ ": malformed configuration"
  | .invalid v => "Validation error: " ++ v.message

namespace Config

def ofDocument? : Yaml.Decoder Config :=
  .record [setting "engine" EngineSection.ofDocument? fun engine c => { c with engine },
    setting "compile" CompileSection.ofDocument? fun compile c => { c with compile },
    setting "logging" LoggingSection.ofDocument? fun logging c => { c with logging }] standard

/-- The configuration that a text spells out. -/
def ofText? (s : String) : Option Config := (Yaml.Document.ofText? s).bind ofDocument?

/-- The configuration in a file. -/
def ofFile (files : Files) (path : String) : Except ConfigFault Config := do
  let text ← (files.read path).mapError (.unreadable path)
  match ofText? text with
  | none => .error (.malformed path)
  | some c =>
    c.check.mapError .invalid
    .ok c

/-- The configuration file in the home folder. -/
def homeFile? (env : Environment) : Option String :=
  match env "HOME" with
  | some "" | none => none
  | some home =>
    some (String.ofList (Path.join (Path.join home.toList ".qwire".toList) "config.yaml".toList))

/-- The file that settings are read from: the one that the user names, or else the one in the
home folder if it is there. -/
def source? (files : Files) (env : Environment) (named : Option String) : Option String :=
  named.or ((homeFile? env).filter files.contains)

/-- Load the configuration. -/
def load (files : Files) (env : Environment) (named : Option String) :
    Except ConfigFault Config := do
  let c ← match source? files env named with
    | some path => ofFile files path
    | none => .ok standard
  (env.apply c).mapError .invalid

end Config

end QuantumWiring
