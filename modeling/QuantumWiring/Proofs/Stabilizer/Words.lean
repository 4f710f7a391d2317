import QuantumWiring.Proofs.Stabilizer.Grammar

/-!
# Tableaux and signed words

A tableau that passes its check is made of rows, each a phase and as many Pauli operators as there
are qubits (`check_eq_ok_iff`).  A row is written with its shortest sign, so its word denotes it
(`denotes_text`) and is read back as the row.  What is read from words is made of rows again.  Hence
tableaux and the lists of words in that spelling say the same (`ofGenerators_generators`).
-/

namespace QuantumWiring

namespace Row

/-- The signed word of a row. -/
def text (w : Row) : String := String.ofList (w.1.sign ++ w.2.map Pauli.letter)

end Row

/-- A phase is written with one of its signs. -/
theorem Phase.isSign_sign (p : Phase) : IsSign p.sign p.code := by
  cases p with
  | plusOne => exact .plus
  | minusOne => exact .minus
  | plusI => exact .plusI
  | minusI => exact .minusI

namespace Tableau

/-! ## Rows -/

theorem letters?_bits (ps : List Pauli) :
    letters? (ps.map Pauli.xBit) (ps.map Pauli.zBit) = some (ps.map Pauli.letter) := by
  induction ps with
  | nil => rfl
  | cons p ps ih => simp [letters?, Pauli.ofBits?_bits, ih]

/-- A row is denoted by its word. -/
theorem denotes_text (w : Row) : Denotes w.text w.1.code (w.2.map Pauli.bits) := by
  obtain ⟨phase, ps⟩ := w
  have hsign : ∀ c ∈ phase.sign, (!Text.isBlank c) = true := by
    cases phase <;> simp [Phase.sign, Text.isBlank]
  have hletter (p : Pauli) : (!Text.isBlank p.letter) = true := by cases p <;> decide
  have hblank : (phase.sign ++ ps.map Pauli.letter).filter (!Text.isBlank ·) =
      phase.sign ++ ps.map Pauli.letter := by
    refine List.filter_eq_self.2 fun c hc => ?_
    rcases List.mem_append.1 hc with hc | hc
    · exact hsign c hc
    · obtain ⟨p, -, rfl⟩ := List.mem_map.1 hc
      exact hletter p
  refine ⟨phase.sign, ps.map Pauli.letter, ?_, phase.isSign_sign,
    Pauli.forall₂_isLetter_iff.2 ⟨ps, rfl, rfl⟩⟩
  rw [Text.withoutBlanks, Row.text, String.toList_ofList, hblank]

theorem height_ofRows (ws : List Row) : (ofRows ws).height = ws.length := List.length_map _

theorem generator?_ofRows (ws : List Row) (i : Nat) :
    (ofRows ws).generator? i = ws[i]?.map Row.text := by
  unfold generator? ofRows
  simp only [List.getElem?_map]
  cases ws[i]? with
  | none => rfl
  | some w => simp [Phase.ofCode?_code, letters?_bits, Row.text]

theorem generators_ofRows (ws : List Row) : (ofRows ws).generators = ws.map Row.text := by
  unfold generators
  rw [height_ofRows]
  refine List.ext_getElem (by simp) fun i hi _ => ?_
  have hi : i < ws.length := by simpa using hi
  simp [generator?_ofRows, hi]

/-! ## Checked tableaux -/

theorem isBit_xBit (p : Pauli) : isBit p.xBit := by cases p <;> rfl

theorem isBit_zBit (p : Pauli) : isBit p.zBit := by cases p <;> rfl

theorem exists_pauli {x z : UInt8} (hx : isBit x) (hz : isBit z) :
    ∃ p : Pauli, p.xBit = x ∧ p.zBit = z := by
  have hbit {b : UInt8} (hb : isBit b) : b = 0 ∨ b = 1 := by
    have hle : b.toNat ≤ 1 := UInt8.le_iff_toNat_le.1 (of_decide_eq_true hb)
    rcases Nat.le_one_iff_eq_zero_or_eq_one.1 hle with h | h
    · exact .inl (UInt8.toNat_inj.1 h)
    · exact .inr (UInt8.toNat_inj.1 h)
  rcases hbit hx with rfl | rfl <;> rcases hbit hz with rfl | rfl
  · exact ⟨.I, rfl, rfl⟩
  · exact ⟨.Z, rfl, rfl⟩
  · exact ⟨.X, rfl, rfl⟩
  · exact ⟨.Y, rfl, rfl⟩

/-- Two rows of as many bits are the bits of operators. -/
theorem exists_paulis {xs zs : List UInt8} (hlen : xs.length = zs.length) (hxs : xs.all isBit)
    (hzs : zs.all isBit) :
    ∃ ps : List Pauli, ps.map Pauli.xBit = xs ∧ ps.map Pauli.zBit = zs := by
  induction xs generalizing zs with
  | nil =>
    obtain rfl := List.length_eq_zero_iff.1 hlen.symm
    exact ⟨[], rfl, rfl⟩
  | cons x xs ih =>
    cases zs with
    | nil => cases hlen
    | cons z zs =>
      simp only [List.all_cons, Bool.and_eq_true] at hxs hzs
      obtain ⟨p, rfl, rfl⟩ := exists_pauli hxs.1 hzs.1
      obtain ⟨ps, rfl, rfl⟩ := ih (Nat.succ.inj hlen) hxs.2 hzs.2
      exact ⟨p :: ps, rfl, rfl⟩

theorem exists_phase {code : UInt8} (h : ¬ 3 < code) : ∃ p : Phase, p.code = code := by
  have hle : code.toNat ≤ 3 := by simpa [UInt8.lt_iff_toNat_lt] using h
  have hcode (p : Phase) (hp : p.code.toNat = code.toNat) : ∃ p : Phase, p.code = code :=
    ⟨p, UInt8.toNat_inj.1 hp⟩
  obtain h | h | h | h : code.toNat = 0 ∨ code.toNat = 1 ∨ code.toNat = 2 ∨ code.toNat = 3 := by
    omega
  · exact hcode .plusOne h.symm
  · exact hcode .minusOne h.symm
  · exact hcode .plusI h.symm
  · exact hcode .minusI h.symm

theorem checkRows_cons_eq_ok_iff {width row : Nat} {xs zs : List UInt8} {x z : List (List UInt8)} :
    checkRows width row (xs :: x) (zs :: z) = .ok () ↔
      (xs.length = width ∧ zs.length = width) ∧ (xs.all isBit ∧ zs.all isBit) ∧
        checkRows width (row + 1) x z = .ok () := by
  rw [checkRows]
  split
  · next hw =>
    refine ⟨nofun, fun h => ?_⟩
    rcases hw with hw | hw
    · exact absurd h.1.1 hw
    · exact absurd h.1.2 hw
  · next hw =>
    have hw : xs.length = width ∧ zs.length = width := by simpa using hw
    split
    · next hb =>
      refine ⟨nofun, fun h => ?_⟩
      simp [h.2.1.1, h.2.1.2] at hb
    · next hb => exact ⟨fun h => ⟨hw, by simpa using hb, h⟩, fun h => h.2.2⟩

theorem checkRows_ofRows {width : Nat} {ws : List Row} (hws : ∀ w ∈ ws, w.2.length = width)
    (row : Nat) : checkRows width row (ofRows ws).x (ofRows ws).z = .ok () := by
  induction ws generalizing row with
  | nil => rfl
  | cons w ws ih =>
    obtain ⟨hw, hws⟩ := List.forall_mem_cons.1 hws
    refine checkRows_cons_eq_ok_iff.2 ⟨by simp [hw], ⟨?_, ?_⟩, ih hws _⟩
    · simpa using fun p _ => isBit_xBit p
    · simpa using fun p _ => isBit_zBit p

/-- Checked rows of bits with phase codes in range are the rows of a tableau. -/
theorem exists_rows_of_checkRows {width row : Nat} {x z : List (List UInt8)} {r : List UInt8}
    (hx : x.length = r.length) (hz : z.length = r.length)
    (hrows : checkRows width row x z = .ok ()) (hr : ∀ code ∈ r, ¬ 3 < code) :
    ∃ ws, ofRows ws = ⟨x, z, r⟩ ∧ ∀ w ∈ ws, w.2.length = width := by
  induction r generalizing x z row with
  | nil =>
    obtain rfl := List.length_eq_zero_iff.1 hx
    obtain rfl := List.length_eq_zero_iff.1 hz
    exact ⟨[], rfl, by simp⟩
  | cons code r ih =>
    obtain ⟨xs, x, rfl⟩ := List.exists_cons_of_length_eq_add_one hx
    obtain ⟨zs, z, rfl⟩ := List.exists_cons_of_length_eq_add_one hz
    obtain ⟨⟨hxs, hzs⟩, ⟨hxbit, hzbit⟩, hrest⟩ := checkRows_cons_eq_ok_iff.1 hrows
    obtain ⟨hcode, hcodes⟩ := List.forall_mem_cons.1 hr
    obtain ⟨ws, hws, hlen⟩ := ih (Nat.succ.inj hx) (Nat.succ.inj hz) hrest hcodes
    obtain ⟨phase, rfl⟩ := exists_phase hcode
    obtain ⟨ps, rfl, rfl⟩ := exists_paulis (hxs.trans hzs.symm) hxbit hzbit
    obtain ⟨rfl, rfl, rfl⟩ : _ = x ∧ _ = z ∧ _ = r := by simpa [ofRows] using hws
    exact ⟨(phase, ps) :: ws, rfl, List.forall_mem_cons.2 ⟨by simpa using hxs, hlen⟩⟩

theorem check_eq_ok_iff_checkRows {t : Tableau} : t.check = .ok () ↔
    (t.x.length = t.height ∧ t.z.length = t.height) ∧ checkRows t.width 0 t.x t.z = .ok () ∧
      ∀ code ∈ t.r, ¬ 3 < code := by
  have hfind : (∀ code ∈ t.r, ¬ 3 < code) ↔ t.r.find? (3 < ·) = none := by simp
  unfold check
  by_cases hcounts : t.x.length = t.height ∧ t.z.length = t.height
  · rw [if_neg (by simpa using hcounts), bind_eq_ok_iff, hfind]
    constructor
    · rintro ⟨_, hrows, hr⟩
      split at hr
      · cases hr
      · next hnone => exact ⟨hcounts, hrows, hnone⟩
    · rintro ⟨-, hrows, hnone⟩
      exact ⟨(), hrows, by rw [hnone]⟩
  · rw [if_pos (Decidable.not_and_iff_not_or_not.1 hcounts)]
    exact ⟨nofun, fun h => absurd h.1 hcounts⟩

/-- **A tableau passes its check exactly when it is made of rows** of its width. -/
theorem check_eq_ok_iff {t : Tableau} :
    t.check = .ok () ↔ ∃ ws, ofRows ws = t ∧ ∀ w ∈ ws, w.2.length = t.width := by
  rw [check_eq_ok_iff_checkRows]
  constructor
  · rintro ⟨⟨hx, hz⟩, hrows, hr⟩
    exact exists_rows_of_checkRows hx hz hrows hr
  · rintro ⟨ws, rfl, hws⟩
    refine ⟨by simp [ofRows, height], checkRows_ofRows hws 0, fun code hcode => ?_⟩
    obtain ⟨w, -, rfl⟩ := List.mem_map.1 hcode
    cases w.1 <;> decide

theorem width_ofRows {ws : List Row} {n : Nat} (hws : ∀ w ∈ ws, w.2.length = n) :
    ∀ w ∈ ws, w.2.length = (ofRows ws).width := by
  cases ws with
  | nil => simp
  | cons v ws =>
    intro w hw
    have hv : (ofRows (v :: ws)).width = v.2.length := List.length_map _
    rw [hws w hw, hv, hws v List.mem_cons_self]

/-- A checked tableau is read back from its words. -/
theorem ofGenerators_generators_of_check {t : Tableau} (h : t.check = .ok ()) :
    ofGenerators t.generators = .ok t := by
  obtain ⟨ws, rfl, hws⟩ := check_eq_ok_iff.1 h
  rw [generators_ofRows]
  refine readWords_eq_ok_iff.2 ⟨ws, _, ?_, by simp, hws, rfl⟩
  rw [List.forall₂_map_left_iff, List.forall₂_same]
  exact fun w _ => denotes_text w

/-- What is read from words passes the check and has a row for each word. -/
theorem check_of_ofGenerators {words : List String} {t : Tableau}
    (h : ofGenerators words = .ok t) :
    t.check = .ok () ∧ t.height = words.length := by
  obtain ⟨ws, n, hdenotes, -, hws, rfl⟩ := readWords_eq_ok_iff.1 h
  exact ⟨check_eq_ok_iff.2 ⟨ws, rfl, width_ofRows hws⟩,
    by rw [height_ofRows, hdenotes.length_eq]⟩

/-- No row of a checked tableau is written as a question mark. -/
theorem exists_generator?_of_check {t : Tableau} (h : t.check = .ok ()) {row : Nat}
    (hrow : row < t.height) :
    ∃ word, t.generator? row = some word ∧ t.generators[row]? = some word := by
  obtain ⟨ws, rfl, -⟩ := check_eq_ok_iff.1 h
  rw [height_ofRows] at hrow
  refine ⟨ws[row].text, ?_, ?_⟩
  · rw [generator?_ofRows, List.getElem?_eq_getElem hrow]
    rfl
  · rw [generators_ofRows, List.getElem?_map, List.getElem?_eq_getElem hrow]
    rfl

/-- Every row of a checked tableau is written, and the tableau is read back from its words.  What is
read from any words is a checked tableau with a row for each, and its own words are a normal form:
reading and writing them changes nothing any more. -/
theorem ofGenerators_generators :
    (∀ t : Tableau, t.check = .ok () →
      (∀ row < t.height, ∃ word, t.generator? row = some word ∧
        t.generators[row]? = some word) ∧
      ofGenerators t.generators = .ok t) ∧
    ∀ words (t : Tableau), ofGenerators words = .ok t →
      t.check = .ok () ∧
      t.x.length = words.length ∧ t.z.length = words.length ∧ t.r.length = words.length ∧
      ofGenerators t.generators = .ok t ∧
      (ofGenerators t.generators).map generators = .ok t.generators := by
  refine ⟨fun t h => ⟨fun row hrow => exists_generator?_of_check h hrow,
    ofGenerators_generators_of_check h⟩, fun words t h => ?_⟩
  obtain ⟨hcheck, hheight⟩ := check_of_ofGenerators h
  obtain ⟨⟨hx, hz⟩, -, -⟩ := check_eq_ok_iff_checkRows.1 hcheck
  have hback := ofGenerators_generators_of_check hcheck
  refine ⟨hcheck, hx.trans hheight, hz.trans hheight, hheight, hback, ?_⟩
  rw [hback]
  rfl

/-- Words with blanks and long signs, and what is written for them. -/
theorem generators_of_spacedWords :
    ∃ t, ofGenerators ["+1 X Z", " -iIY", "Z Z"] = .ok t ∧
      t.generators = ["+XZ", "-iIY", "+ZZ"] ∧ t.check = .ok () ∧
      ofGenerators ["+XZ", "-iIY", "+ZZ"] = .ok t ∧
      t.generator? 1 = some "-iIY" := by
  have ht : ofGenerators ["+1 X Z", " -iIY", "Z Z"] =
      .ok ⟨[[1, 0], [0, 1], [0, 0]], [[0, 1], [0, 1], [1, 1]], [0, 3, 0]⟩ := by rfl
  obtain ⟨hcheck, -, -, -, hback, -⟩ := ofGenerators_generators.2 _ _ ht
  obtain ⟨word, hword, hrow⟩ := (ofGenerators_generators.1 _ hcheck).1 1 (by decide)
  exact ⟨_, ht, by decide, hcheck, hback, hword.trans (hrow.symm.trans (by decide))⟩

end Tableau

end QuantumWiring
