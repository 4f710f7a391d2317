import QuantumWiring.Correction.Request
import QuantumWiring.Engine.Distribution
import QuantumWiring.Engine.Evolution
import QuantumWiring.Engine.Settings

/-!
# Exchanges with an engine

An engine is reached by one request and one answer.  A call is a function of the answer that the
network gives: it says which requests were sent and how it ended, so that a request which is
refused before sending shows as nothing sent.
-/

namespace QuantumWiring

/-- What the network gives back for a request. -/
inductive Answer where
  /-- The connection was closed without an answer. -/
  | dropped
  | reply (status : Nat) (body : String)
deriving DecidableEq

/-- A request as it is sent, by POST and with a JSON body. -/
structure Post where
  url : String
  /-- The header that carries the token. -/
  authorization : Option String
  body : Json.Value

/-- How a call went. -/
structure Exchange (α : Type) where
  sent : List Post
  outcome : Except EngineFault α

/-- An engine whose settings have been accepted. -/
structure Engine where
  settings : EngineSettings
  accepted : settings.check = .ok ()

namespace Engine

/-- The engine with the given settings, if they are acceptable. -/
def ofSettings (s : EngineSettings) : Except SettingsFault Engine :=
  match h : s.check with
  | .ok () => .ok ⟨s, h⟩
  | .error e => .error e

/-- The name of an engine is its base URL. -/
def name (e : Engine) : String := e.settings.baseUrl

/-- The header for a token; no blanks stand at its end. -/
def bearer (token : String) : String :=
  String.ofList (Text.trimRight ("Bearer " ++ token).toList)

/-- The request that is sent to an endpoint. -/
def request (e : Engine) (path : String) (body : Json.Value) : Post :=
  ⟨e.settings.address path, e.settings.token.map bearer, body⟩

/-- The body of a successful answer. -/
def bodyOf : Answer → Except EngineFault Json.Value
  | .dropped => .error .network
  | .reply status body =>
    if 200 ≤ status ∧ status < 300 then
      match Json.parse body with
      | .ok v => .ok v
      | .error _ => .error (.responseShape .notJson)
    else .error (.api status body)

/-- Send a request and look at the answer. -/
def exchange {α : Type} (e : Engine) (path : String) (body : Json.Value)
    (result : Json.Value → Except EngineFault α) (answer : Answer) : Exchange α :=
  ⟨[e.request path body], bodyOf answer >>= result⟩

/-- Have a circuit simulated. -/
def simulateCircuit (e : Engine) (r : CircuitRequest) (answer : Answer) : Exchange Distribution :=
  e.exchange e.settings.circuitPath r.toJson (Distribution.ofResponse · r.qubitNodes.length)
    answer

/-- Have a stabilizer state evolved. -/
def evolveStabilizer (e : Engine) (r : StabilizerRequest) (answer : Answer) :
    Exchange Evolution :=
  e.exchange e.settings.stabilizerPath r.toJson (Evolution.ofResponse · r.numQubits) answer

/-- Have a cycle of error correction simulated.  Nothing is sent if an error is on no qubit of
the code. -/
def correctErrors (e : Engine) (r : CorrectionRequest) (answer : Answer) :
    Exchange CorrectionResult :=
  match r.check with
  | .error fault => ⟨[], .error fault⟩
  | .ok _ =>
    e.exchange e.settings.correctionPath r.toJson (CorrectionResult.ofResponse · r.code) answer

end Engine

end QuantumWiring
