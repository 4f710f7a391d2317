import QuantumWiring.Engine.Evolution
import QuantumWiring.Proofs.Stabilizer.Words

/-!
# Accepted answers

An answer is any JSON value.  An evolution or a result of error correction is taken from it exactly
when the fields are there, can be decoded, and hold tableaux that pass their check and act on the
qubits asked for (`Evolution.ofResponse_eq_ok_iff`, `CorrectionResult.ofResponse_eq_ok_iff`); any
other answer has the wrong shape, and no other fault is reported.  What has been accepted can be
written: each generator is a sign and one Pauli letter for each qubit (`Tableau.legible_of_check`).
-/

namespace QuantumWiring

/-! ## Legible tableaux -/

/-- A sign and as many Pauli letters as there are qubits. -/
def IsSignedWord (n : Nat) (word : String) : Prop :=
  ∃ sign letters : List Char, word.toList = sign ++ letters ∧
    sign ∈ [['+'], ['-'], ['+', 'i'], ['-', 'i']] ∧
    letters.length = n ∧ ∀ c ∈ letters, c ∈ ['I', 'X', 'Y', 'Z']

theorem IsSignedWord.ne_questionMark {n : Nat} {word : String} (h : IsSignedWord n word) :
    word ≠ "?" := by
  rintro rfl
  obtain ⟨sign, letters, hword, hsign, -⟩ := h
  have hmark : ['?'] = sign ++ letters := hword
  simp only [List.mem_cons, List.not_mem_nil, or_false] at hsign
  rcases hsign with rfl | rfl | rfl | rfl <;> simp at hmark

theorem Row.isSignedWord_text (w : Row) : IsSignedWord w.2.length w.text := by
  refine ⟨w.1.sign, w.2.map Pauli.letter, String.toList_ofList, ?_, List.length_map _, ?_⟩
  · cases w.1 <;> decide
  · intro c hc
    obtain ⟨p, -, rfl⟩ := List.mem_map.1 hc
    cases p <;> decide

namespace Tableau

/-- Every generator is written as a signed word on `n` qubits, none as a question mark. -/
structure Legible (n : Nat) (t : Tableau) : Prop where
  length_generators : t.generators.length = t.height
  isSignedWord : ∀ word ∈ t.generators, IsSignedWord n word
  ne_questionMark : ∀ word ∈ t.generators, word ≠ "?"

/-- What passes its check can be written. -/
theorem legible_of_check {n : Nat} {t : Tableau} (h : t.check = .ok ())
    (hn : t.height = 0 ∨ t.width = n) : t.Legible n := by
  obtain ⟨ws, rfl, hws⟩ := check_eq_ok_iff.1 h
  have hwords : ∀ word ∈ (ofRows ws).generators, IsSignedWord n word := by
    intro word hword
    rw [generators_ofRows] at hword
    obtain ⟨w, hw, rfl⟩ := List.mem_map.1 hword
    -- there is a word, hence a row, and so the width is the one asked for
    have hwidth : (ofRows ws).width = n := by
      apply hn.resolve_left
      rw [height_ofRows]
      exact Nat.ne_of_gt (List.length_pos_of_mem hw)
    rw [← hwidth, ← hws w hw]
    exact w.isSignedWord_text
  refine ⟨?_, hwords, fun word hword => (hwords word hword).ne_questionMark⟩
  rw [generators_ofRows, height_ofRows, List.length_map]

end Tableau

/-! ## Evolutions -/

namespace Evolution

variable {body : Json.Value} {n : Nat}

theorem checkSteps_eq_ok_iff (step : Nat) {ts : List Tableau} : checkSteps n step ts = .ok () ↔
    ∀ t ∈ ts, t.check = .ok () ∧ (t.height = 0 ∨ t.width = n) := by
  induction ts generalizing step with
  | nil => simp [checkSteps]
  | cons t ts ih =>
    rw [checkSteps, List.forall_mem_cons, ← ih (step + 1)]
    cases hcheck : t.check with
    | error e => simp
    | ok u =>
      by_cases hwidth : 0 < t.height ∧ t.width ≠ n
      · rw [if_pos hwidth]
        have hnot : ¬ (t.height = 0 ∨ t.width = n) := by omega
        simp [hnot]
      · rw [if_neg hwidth]
        have hfits : t.height = 0 ∨ t.width = n := by omega
        simp [hfits]

/-- An evolution is taken from an answer exactly when the field is there, is a list of tableaux, and
each of these can be used. -/
theorem ofResponse_eq_ok_iff {e : Evolution} : ofResponse body n = .ok e ↔
    ∃ v, body.field? "evolution" = some v ∧
      (Json.Decoder.list Tableau.decoder).ofValue v = .ok e.steps ∧
      ∀ t ∈ e.steps, t.check = .ok () ∧ (t.height = 0 ∨ t.width = n) := by
  rw [← checkSteps_eq_ok_iff 0]
  constructor
  · intro h
    unfold ofResponse at h
    split at h
    · cases h
    · next v hv =>
      split at h
      · cases h
      · next steps hsteps =>
        split at h
        · cases h
        · next hcheck =>
          cases h
          exact ⟨v, hv, hsteps, hcheck⟩
  · rintro ⟨v, hv, hsteps, hcheck⟩
    unfold ofResponse
    simp only [hv, hsteps, hcheck]

/-- Every other answer has the wrong shape. -/
theorem responseShape_of_ofResponse {f : EngineFault} (h : ofResponse body n = .error f) :
    ∃ fault, f = .responseShape fault := by
  unfold ofResponse at h
  split at h
  · cases h
    exact ⟨_, rfl⟩
  · split at h
    · cases h
      exact ⟨_, rfl⟩
    · split at h
      · cases h
        exact ⟨_, rfl⟩
      · cases h

end Evolution

/-! ## Results of error correction -/

namespace CorrectionResult

variable {body : Json.Value} {code : Code}

theorem checkSnapshots_eq_ok_iff {ss : List Snapshot} : checkSnapshots code ss = .ok () ↔
    ∀ s ∈ ss, s.tableau.check = .ok () ∧ s.tableau.width = code.numQubits := by
  induction ss with
  | nil => simp [checkSnapshots]
  | cons s ss ih =>
    rw [checkSnapshots, List.forall_mem_cons, ← ih]
    cases hcheck : s.tableau.check with
    | error e => simp
    | ok u => by_cases hwidth : s.tableau.width = code.numQubits <;> simp [hwidth]

theorem lacks_eq_false_iff {field : String} :
    lacks body field = false ↔ ∃ v, body.field? field = some v ∧ v.isNull = false := by
  unfold lacks
  cases body.field? field <;> simp

/-- The reported states are the first one, the one after the errors and, if there is one, the one
after the recovery. -/
theorem mem_snapshots_iff {r : CorrectionResult} {s : Snapshot} :
    s ∈ r.snapshots ↔ s = r.initial ∨ s = r.afterErrors ∨ s ∈ r.afterRecovery := by
  simp [snapshots]

/-- A result is taken from an answer exactly when its two required fields are there and not null,
the answer is a result, and the tableaux of all its states act on the qubits of the code. -/
theorem ofResponse_eq_ok_iff {r : CorrectionResult} : ofResponse body code = .ok r ↔
    (∀ field ∈ ["initial", "afterErrors"], ∃ v, body.field? field = some v ∧ v.isNull = false) ∧
      decoder.ofValue body = .ok r ∧
      ∀ s, s = r.initial ∨ s = r.afterErrors ∨ s ∈ r.afterRecovery →
        s.tableau.check = .ok () ∧ s.tableau.width = code.numQubits := by
  simp only [← mem_snapshots_iff, ← checkSnapshots_eq_ok_iff]
  have hfields : ["initial", "afterErrors"].find? (lacks body) = none ↔
      ∀ field ∈ ["initial", "afterErrors"], ∃ v, body.field? field = some v ∧ v.isNull = false := by
    rw [List.find?_eq_none]
    refine forall₂_congr fun field _ => ?_
    rw [← lacks_eq_false_iff, Bool.not_eq_true]
  rw [← hfields]
  constructor
  · intro h
    unfold ofResponse at h
    split at h
    · cases h
    · next hnone =>
      split at h
      · cases h
      · next r' hdecode =>
        split at h
        · cases h
        · next hcheck =>
          cases h
          exact ⟨hnone, hdecode, hcheck⟩
  · rintro ⟨hnone, hdecode, hcheck⟩
    unfold ofResponse
    simp only [hnone, hdecode, hcheck]

/-- Every other answer has the wrong shape. -/
theorem responseShape_of_ofResponse {f : EngineFault} (h : ofResponse body code = .error f) :
    ∃ fault, f = .responseShape fault := by
  unfold ofResponse at h
  split at h
  · cases h
    exact ⟨_, rfl⟩
  · split at h
    · cases h
      exact ⟨_, rfl⟩
    · split at h
      · cases h
        exact ⟨_, rfl⟩
      · cases h

end CorrectionResult

/-! ## Accepted and refused -/

/-- What has no result and no fault but those of shape ends with one of these. -/
theorem exists_responseShape {α : Type} {x : Except EngineFault α} (hok : ∀ a, x ≠ .ok a)
    (herror : ∀ f, x = .error f → ∃ fault, f = .responseShape fault) :
    ∃ fault, x = .error (.responseShape fault) := by
  cases x with
  | error f =>
    obtain ⟨fault, rfl⟩ := herror f rfl
    exact ⟨fault, rfl⟩
  | ok a => exact absurd rfl (hok a)

/-- Of an answer, whatever it holds, an evolution is accepted exactly when its list of tableaux is
there and each of them passes its check and has no generators or the right width, and a result of
error correction exactly when its required fields are there and the tableaux at the start, after the
errors and, if there is one, after the recovery pass their check and have the width of the code.  All
else is refused for its shape, and what is accepted can be written, row by row. -/
theorem ofResponse_accepts (body : Json.Value) (n : Nat) (code : Code) :
    (∀ e, Evolution.ofResponse body n = .ok e ↔ ∃ v, body.field? "evolution" = some v ∧
      (Json.Decoder.list Tableau.decoder).ofValue v = .ok e.steps ∧
      ∀ t ∈ e.steps, t.check = .ok () ∧ (t.height = 0 ∨ t.width = n)) ∧
    (∀ r, CorrectionResult.ofResponse body code = .ok r ↔
      (∀ field ∈ ["initial", "afterErrors"],
        ∃ v, body.field? field = some v ∧ v.isNull = false) ∧
      CorrectionResult.decoder.ofValue body = .ok r ∧
      ∀ s, s = r.initial ∨ s = r.afterErrors ∨ s ∈ r.afterRecovery →
        s.tableau.check = .ok () ∧ s.tableau.width = code.numQubits) ∧
    (∀ f, Evolution.ofResponse body n = .error f ∨
      CorrectionResult.ofResponse body code = .error f → ∃ fault, f = .responseShape fault) ∧
    (∀ e, Evolution.ofResponse body n = .ok e → ∀ t ∈ e.steps, t.Legible n) ∧
    ∀ r, CorrectionResult.ofResponse body code = .ok r →
      ∀ s, s = r.initial ∨ s = r.afterErrors ∨ s ∈ r.afterRecovery →
        s.tableau.Legible code.numQubits := by
  refine ⟨fun e => Evolution.ofResponse_eq_ok_iff, fun r => CorrectionResult.ofResponse_eq_ok_iff,
    ?refused, ?evolution, ?correction⟩
  case refused =>
    rintro f (h | h)
    · exact Evolution.responseShape_of_ofResponse h
    · exact CorrectionResult.responseShape_of_ofResponse h
  case evolution =>
    intro e h t ht
    obtain ⟨v, -, -, hsteps⟩ := Evolution.ofResponse_eq_ok_iff.1 h
    obtain ⟨hcheck, hfits⟩ := hsteps t ht
    exact t.legible_of_check hcheck hfits
  case correction =>
    intro r h s hs
    obtain ⟨-, -, hstates⟩ := CorrectionResult.ofResponse_eq_ok_iff.1 h
    obtain ⟨hcheck, hwidth⟩ := hstates s hs
    exact s.tableau.legible_of_check hcheck (.inr hwidth)

/-- Two qubits in a Bell state, its second generator with a minus. -/
def pairTableau : Tableau := ⟨[[1, 1], [0, 0]], [[0, 0], [1, 1]], [0, 1]⟩

/-- Three qubits that all stand for zero. -/
def flipTableau : Tableau :=
  ⟨[[0, 0, 0], [0, 0, 0], [0, 0, 0]], [[1, 1, 0], [0, 1, 1], [0, 0, 1]], [0, 0, 0]⟩

/-- A cycle on three qubits that ends with the given tableau. -/
def flipCycle (t : Tableau) : CorrectionResult :=
  ⟨⟨flipTableau, [0, 0]⟩, ⟨flipTableau, [1, 0]⟩, some ⟨t, [0, 0]⟩, some ⟨.X, 0⟩, true⟩

/-- The pair is accepted after a step without generators, and not for three qubits; a cycle that ends
with three qubits is accepted, and one that ends with the pair is not. -/
theorem ofResponse_pairTableau :
    let body := Json.Value.object [("evolution", .ofList Tableau.toJson [.empty, pairTableau])]
    ((∃ e, Evolution.ofResponse body 2 = .ok e ∧ pairTableau ∈ e.steps ∧ pairTableau.Legible 2) ∧
      ∃ fault, Evolution.ofResponse body 3 = .error (.responseShape fault)) ∧
    (CorrectionResult.ofResponse (flipCycle flipTableau).toJson .bitFlip =
        .ok (flipCycle flipTableau) ∧ flipTableau.Legible 3) ∧
      ∃ fault, CorrectionResult.ofResponse (flipCycle pairTableau).toJson .bitFlip =
        .error (.responseShape fault) := by
  intro body
  have hsteps : (Json.Decoder.list Tableau.decoder).ofValue
      (.ofList Tableau.toJson [.empty, pairTableau]) = .ok [.empty, pairTableau] := by rfl
  have hpair : CorrectionResult.decoder.ofValue (flipCycle pairTableau).toJson =
      .ok (flipCycle pairTableau) := by rfl
  obtain ⟨htwo, -, -, hlegible, -⟩ := ofResponse_accepts body 2 .bitFlip
  obtain ⟨hthree, -, hrefused, -⟩ := ofResponse_accepts body 3 .bitFlip
  obtain ⟨-, hcycle, -, -, hlegible'⟩ :=
    ofResponse_accepts (flipCycle flipTableau).toJson 3 .bitFlip
  obtain ⟨-, hbroken, hrefused', -⟩ := ofResponse_accepts (flipCycle pairTableau).toJson 3 .bitFlip
  refine ⟨⟨?evolution, ?width⟩, ?cycle, ?recovery⟩
  case evolution =>
    have hfits : ∀ t ∈ [Tableau.empty, pairTableau],
        t.check = .ok () ∧ (t.height = 0 ∨ t.width = 2) := by
      simp only [List.forall_mem_cons]
      exact ⟨⟨rfl, by decide⟩, ⟨rfl, by decide⟩, by simp⟩
    have hok := (htwo ⟨[.empty, pairTableau]⟩).2 ⟨_, rfl, hsteps, hfits⟩
    exact ⟨_, hok, by simp, hlegible _ hok _ (by simp)⟩
  case width =>
    refine exists_responseShape (fun e hok => ?_) fun f hf => hrefused f (.inl hf)
    obtain ⟨v, hv, hdecode, hfits⟩ := (hthree e).1 hok
    obtain rfl := Option.some.inj hv
    rw [hsteps] at hdecode
    rw [← Except.ok.inj hdecode] at hfits
    exact absurd (hfits pairTableau (by simp)).2 (by decide)
  case cycle =>
    have hok : CorrectionResult.ofResponse (flipCycle flipTableau).toJson .bitFlip =
        .ok (flipCycle flipTableau) := by
      refine (hcycle _).2 ⟨?_, by rfl, ?_⟩
      · simp only [List.forall_mem_cons]
        exact ⟨⟨_, rfl, rfl⟩, ⟨_, rfl, rfl⟩, by simp⟩
      · rintro s (rfl | rfl | hs)
        · exact ⟨rfl, rfl⟩
        · exact ⟨rfl, rfl⟩
        · obtain rfl := Option.some.inj hs
          exact ⟨rfl, rfl⟩
    exact ⟨hok, hlegible' _ hok ⟨flipTableau, [0, 0]⟩ (.inl rfl)⟩
  case recovery =>
    refine exists_responseShape (fun r hok => ?_) fun f hf => hrefused' f (.inr hf)
    obtain ⟨-, hdecode, hstates⟩ := (hbroken r).1 hok
    rw [hpair] at hdecode
    obtain rfl := Except.ok.inj hdecode
    -- the state that was reached is on two qubits, the code is on three
    exact absurd (hstates ⟨pairTableau, [0, 0]⟩ (.inr (.inr rfl))).2 (by decide)

end QuantumWiring
