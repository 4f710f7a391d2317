import QuantumWiring.Engine.Exchange
import QuantumWiring.Proofs.Engine.Acceptance

/-!
# Refused requests

A request that is not acceptable should be refused before it is sent.  Error correction does so:
its calls are refused exactly when nothing was sent.  A stabilizer state is never refused.  A
circuit is refused for its number of qubits only when the answer is looked at, and only if that
holds a list of numbers; by then the request has been sent (`refused_calls`).
-/

namespace QuantumWiring

/-- The call failed because of its request. -/
def Exchange.Refused {α : Type} (x : Exchange α) : Prop :=
  ∃ fault, x.outcome = .error (.invalidRequest fault)

/-! ## Looking at answers -/

namespace Distribution

theorem basisSize?_eq_none_iff {n : Nat} : basisSize? n = none ↔ 64 ≤ n % UInt32.size := by
  unfold basisSize?
  split
  · next h => simp [h]
  · next h => simpa using h

theorem ofProbabilities_refused_iff (ps : List Binary64) {n : Nat} :
    (∃ fault, ofProbabilities ps n = .error (.invalidRequest fault)) ↔
      64 ≤ n % UInt32.size := by
  rw [← basisSize?_eq_none_iff]
  unfold ofProbabilities
  cases basisSize? n with
  | none => simp
  | some size =>
    constructor
    · rintro ⟨fault, h⟩
      simp only at h
      split at h
      · cases h
      · split at h
        · cases h
        · split at h <;> cases h
    · intro h
      cases h

/-- An answer is refused for the number of qubits if it holds a list of numbers, of any length. -/
theorem ofResponse_refused_iff {body : Json.Value} {n : Nat} :
    (∃ fault, ofResponse body n = .error (.invalidRequest fault)) ↔
      64 ≤ n % UInt32.size ∧ ∃ v ps, body.field? "probabilities" = some v ∧
        (Json.Decoder.list .real).ofValue v = .ok ps := by
  constructor
  · rintro ⟨fault, h⟩
    unfold ofResponse at h
    split at h
    · cases h
    · next v hv =>
      split at h
      · cases h
      · next ps hps => exact ⟨(ofProbabilities_refused_iff ps).1 ⟨fault, h⟩, v, ps, hv, hps⟩
  · rintro ⟨hn, v, ps, hv, hps⟩
    obtain ⟨fault, h⟩ := (ofProbabilities_refused_iff ps).2 hn
    refine ⟨fault, ?_⟩
    unfold ofResponse
    simp only [hv, hps, h]

end Distribution

namespace Engine

variable {e : Engine} {a : Answer}

theorem bodyOf_ne_invalidRequest {fault : RequestFault} :
    bodyOf a ≠ .error (.invalidRequest fault) := by
  intro h
  unfold bodyOf at h
  split at h
  · cases h
  · split at h
    · split at h <;> cases h
    · cases h

/-- A request that was sent is refused by what is made of the answer. -/
theorem refused_exchange_iff {α : Type} {path : String} {body : Json.Value}
    {result : Json.Value → Except EngineFault α} : (e.exchange path body result a).Refused ↔
      ∃ v, bodyOf a = .ok v ∧ ∃ fault, result v = .error (.invalidRequest fault) := by
  constructor
  · rintro ⟨fault, h⟩
    rcases bind_eq_error_iff.1 h with h | ⟨v, hv, h⟩
    · exact absurd h bodyOf_ne_invalidRequest
    · exact ⟨v, hv, fault, h⟩
  · rintro ⟨v, hv, fault, h⟩
    exact ⟨fault, bind_eq_error_iff.2 (.inr ⟨v, hv, h⟩)⟩

/-! ## Calls -/

theorem refused_simulateCircuit_iff {r : CircuitRequest} : (e.simulateCircuit r a).Refused ↔
    64 ≤ r.qubitNodes.length % UInt32.size ∧ ∃ body v ps, bodyOf a = .ok body ∧
      body.field? "probabilities" = some v ∧ (Json.Decoder.list .real).ofValue v = .ok ps := by
  rw [simulateCircuit, refused_exchange_iff]
  simp only [Distribution.ofResponse_refused_iff]
  constructor
  · rintro ⟨body, hbody, hn, v, ps, hv, hps⟩
    exact ⟨hn, body, v, ps, hbody, hv, hps⟩
  · rintro ⟨hn, body, v, ps, hbody, hv, hps⟩
    exact ⟨body, hbody, hn, v, ps, hv, hps⟩

theorem not_refused_evolveStabilizer {r : StabilizerRequest} :
    ¬ (e.evolveStabilizer r a).Refused := by
  intro h
  obtain ⟨body, -, fault, hfault⟩ := refused_exchange_iff.1 h
  obtain ⟨shape, hshape⟩ := Evolution.responseShape_of_ofResponse hfault
  cases hshape

theorem refused_correctErrors_iff {r : CorrectionRequest} :
    (e.correctErrors r a).Refused ↔ (e.correctErrors r a).sent = [] := by
  unfold correctErrors CorrectionRequest.check
  cases r.misplaced? with
  | some error => exact iff_of_true ⟨_, rfl⟩ rfl
  | none =>
    refine iff_of_false (fun h => ?_) (List.cons_ne_nil _ _)
    obtain ⟨body, -, fault, hfault⟩ := refused_exchange_iff.1 h
    obtain ⟨shape, hshape⟩ := CorrectionResult.responseShape_of_ofResponse hfault
    cases hshape

theorem length_sent_correctErrors_le {r : CorrectionRequest} :
    (e.correctErrors r a).sent.length ≤ 1 := by
  unfold correctErrors
  cases r.check with
  | error fault => exact Nat.zero_le 1
  | ok u => exact Nat.le_refl 1

/-- Every call sends at most one request.  Calls for stabilizer states are never refused and those
for error correction only with nothing sent.  Calls for circuits are refused exactly when the count
of qubits is too great and the answer nevertheless is a success with a list of numbers. -/
theorem refused_calls (e : Engine) (a : Answer) :
    (∀ r, (e.simulateCircuit r a).sent.length ≤ 1 ∧ ((e.simulateCircuit r a).Refused ↔
      64 ≤ r.qubitNodes.length % UInt32.size ∧ ∃ body v ps, bodyOf a = .ok body ∧
        body.field? "probabilities" = some v ∧ (Json.Decoder.list .real).ofValue v = .ok ps)) ∧
    (∀ r, (e.evolveStabilizer r a).sent.length ≤ 1 ∧ ¬ (e.evolveStabilizer r a).Refused) ∧
    ∀ r, (e.correctErrors r a).sent.length ≤ 1 ∧
      ((e.correctErrors r a).Refused ↔ (e.correctErrors r a).sent = []) := by
  refine ⟨?circuit, ?stabilizer, ?correction⟩
  case circuit =>
    intro r
    exact ⟨Nat.le_refl 1, refused_simulateCircuit_iff⟩
  case stabilizer =>
    intro r
    exact ⟨Nat.le_refl 1, not_refused_evolveStabilizer⟩
  case correction =>
    intro r
    exact ⟨length_sent_correctErrors_le, refused_correctErrors_iff⟩

/-- An engine with default settings. -/
def localEngine : Engine := ⟨.ofUrl "http://engine:3000", rfl⟩

/-- A circuit of 64 qubits without operations. -/
def wideRequest : CircuitRequest := ⟨List.replicate 64 ⟨"q", .zero⟩, []⟩

/-- An answer with the field of probabilities, and nothing in it. -/
def vacantAnswer : Answer := .reply 200 "\x7b\"probabilities\":[]\x7d"

set_option maxRecDepth 20000 in
theorem parse_vacantAnswer : Json.parse "\x7b\"probabilities\":[]\x7d" =
    .ok (.object [("probabilities", .array [])]) := by
  rfl

theorem bodyOf_vacantAnswer :
    bodyOf vacantAnswer = .ok (.object [("probabilities", .array [])]) := by
  simp [vacantAnswer, bodyOf, parse_vacantAnswer]

/-- The request is refused for its 64 qubits after it was sent. -/
theorem refused_wideRequest :
    (localEngine.simulateCircuit wideRequest vacantAnswer).sent.length = 1 ∧
    (localEngine.simulateCircuit wideRequest vacantAnswer).outcome =
      .error (.invalidRequest (.tooManyQubits 64)) := by
  refine ⟨rfl, ?_⟩
  show (bodyOf vacantAnswer >>= _) = _
  rw [bodyOf_vacantAnswer]
  rfl

end Engine

end QuantumWiring
