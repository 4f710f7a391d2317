import QuantumWiring.Config.Basic
import QuantumWiring.Text.Decimal

/-!
# Settings from the environment

Five variables override settings of a configuration.  A timeout that is no number of 64 bits and
a mode that does not exist are passed over; the other values are taken as they are and left to
`Config.check`.
-/

namespace QuantumWiring

/-- The variables that are set, with their values. -/
abbrev Environment := String → Option String

namespace Environment

/-- The variables that are looked at. -/
def names : List String :=
  ["HOME", "QWIRE_ENGINE_URL", "QWIRE_TIMEOUT", "QWIRE_ENGINE_TOKEN", "QWIRE_MODE",
    "QWIRE_LOG_LEVEL"]

/-- The URL of the engine. -/
def url? (env : Environment) : Option String := env "QWIRE_ENGINE_URL"

/-- The seconds that an exchange may take. -/
def timeout? (env : Environment) : Option Nat :=
  (env "QWIRE_TIMEOUT").bind fun s => Text.readBelow? UInt64.size s.toList

def token? (env : Environment) : Option String := env "QWIRE_ENGINE_TOKEN"

/-- The endpoint that a graph is compiled for. -/
def mode? (env : Environment) : Option EndpointMode :=
  (env "QWIRE_MODE").bind fun s => (EndpointMode.parse s).toOption

def logLevel? (env : Environment) : Option String := env "QWIRE_LOG_LEVEL"

/-- The configuration with the settings that the environment overrides. -/
def override (env : Environment) (c : Config) : Config where
  engine := { c.engine with
    url := env.url?.getD c.engine.url
    timeout := env.timeout?.getD c.engine.timeout
    token := env.token?.or c.engine.token }
  compile := ⟨env.mode?.getD c.compile.mode⟩
  logging := ⟨env.logLevel?.getD c.logging.level⟩

/-- The configuration that the environment makes of the given one, if it is accepted. -/
def apply (env : Environment) (c : Config) : Except ConfigViolation Config := do
  let c := env.override c
  c.check
  .ok c

end Environment

end QuantumWiring
