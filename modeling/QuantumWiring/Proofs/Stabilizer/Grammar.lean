import QuantumWiring.Proofs.Failure
import QuantumWiring.Stabilizer.Tableau
import Mathlib.Data.List.Forall2

/-!
# The grammar of signed words

Without its blanks, a word that stands for a row is one of seven signs and a run of Pauli letters.
`IsSign` and `IsLetter` list them with their phase codes and their bits, and `Denotes` is the
grammar.  Signs begin with one another and the longest one is taken, but no letter continues a
sign, so a word that the grammar allows is read in one way (`readWord_eq_ok_iff`), and in any other
word there is a first character that can belong to neither (`readWord_eq_error_iff`).  A list of
words is read exactly when they denote rows of one length; otherwise the first word that does not
fit is refused, for a letter before its length (`ofGenerators_grammar`).
-/

namespace QuantumWiring

/-- The signs that may stand in front of the letters, each with its phase code. -/
inductive IsSign : List Char → UInt8 → Prop
  | unsigned : IsSign [] 0
  | plus : IsSign ['+'] 0
  | plusOne : IsSign ['+', '1'] 0
  | minus : IsSign ['-'] 1
  | minusOne : IsSign ['-', '1'] 1
  | plusI : IsSign ['+', 'i'] 2
  | minusI : IsSign ['-', 'i'] 3

/-- The letters, each with its x bit and its z bit. -/
inductive IsLetter : Char → UInt8 × UInt8 → Prop
  | i : IsLetter 'I' (0, 0)
  | x : IsLetter 'X' (1, 0)
  | z : IsLetter 'Z' (0, 1)
  | y : IsLetter 'Y' (1, 1)

/-- The characters of a word that are not blank. -/
def Text.withoutBlanks (word : String) : List Char := word.toList.filter (!isBlank ·)

/-- A word denotes the row with the given phase code and bits. -/
def Denotes (word : String) (code : UInt8) (bits : List (UInt8 × UInt8)) : Prop :=
  ∃ sign letters, Text.withoutBlanks word = sign ++ letters ∧ IsSign sign code ∧
    List.Forall₂ IsLetter letters bits

/-- A word denotes a row on `n` qubits. -/
def IsRowWord (n : Nat) (word : String) : Prop :=
  ∃ code bits, Denotes word code bits ∧ bits.length = n

/-- What follows a sign does not continue it. -/
def EndsSign (sign cs : List Char) : Prop :=
  ∀ c, cs.head? = some c → ∀ code, ¬ IsSign (sign ++ [c]) code

/-- Behind its longest sign and some letters, a word goes on with a character that is no letter. -/
def StopsAt (word : String) (c : Char) : Prop :=
  ∃ sign code letters bits rest, Text.withoutBlanks word = sign ++ (letters ++ c :: rest) ∧
    IsSign sign code ∧ EndsSign sign (letters ++ c :: rest) ∧ List.Forall₂ IsLetter letters bits ∧
    ∀ b, ¬ IsLetter c b

/-- What is reported of a list of words: the first one that breaks the grammar, with the character
at which it does, or that acts on another number of qubits than those before it. -/
inductive Refuses : List String → TableauFault → Prop
  | letter {before after : List String} {word : String} {n : Nat} {c : Char}
    (hbefore : ∀ w ∈ before, IsRowWord n w) (hword : ∀ m, ¬ IsRowWord m word)
    (hc : StopsAt word c) : Refuses (before ++ word :: after) (.invalidLetter before.length c)
  | length {before after : List String} {word : String} {n m : Nat} (hne : before ≠ [])
    (hbefore : ∀ w ∈ before, IsRowWord n w) (hword : IsRowWord m word) (hm : m ≠ n) :
    Refuses (before ++ word :: after) (.wordLength before.length m n)

/-! ## Letters -/

namespace Pauli

/-- The x bit and the z bit. -/
def bits (p : Pauli) : UInt8 × UInt8 := (p.xBit, p.zBit)

theorem bits_injective : Function.Injective bits := by
  intro p q h
  cases p <;> cases q <;> first | rfl | cases h

theorem isLetter_iff {c : Char} {b : UInt8 × UInt8} :
    IsLetter c b ↔ ∃ p : Pauli, p.letter = c ∧ p.bits = b := by
  constructor
  · intro h
    cases h with
    | i => exact ⟨.I, rfl, rfl⟩
    | x => exact ⟨.X, rfl, rfl⟩
    | z => exact ⟨.Z, rfl, rfl⟩
    | y => exact ⟨.Y, rfl, rfl⟩
  · rintro ⟨p, rfl, rfl⟩
    cases p with
    | I => exact .i
    | X => exact .x
    | Y => exact .y
    | Z => exact .z

theorem ofLetter?_eq_some_iff {c : Char} {p : Pauli} : ofLetter? c = some p ↔ p.letter = c := by
  constructor
  · intro h
    unfold ofLetter? at h
    split at h <;> cases h <;> rfl
  · rintro rfl
    exact ofLetter?_letter p

theorem ofLetter?_eq_none_iff {c : Char} : ofLetter? c = none ↔ ∀ b, ¬ IsLetter c b := by
  rw [Option.eq_none_iff_forall_ne_some]
  constructor
  · rintro h b hb
    obtain ⟨p, hp, -⟩ := isLetter_iff.1 hb
    exact h p (ofLetter?_eq_some_iff.2 hp)
  · intro h p hp
    exact h p.bits (isLetter_iff.2 ⟨p, ofLetter?_eq_some_iff.1 hp, rfl⟩)

/-- Letters and bits belong together when some operators have both. -/
theorem forall₂_isLetter_iff {cs : List Char} {bs : List (UInt8 × UInt8)} :
    List.Forall₂ IsLetter cs bs ↔ ∃ ps : List Pauli, ps.map letter = cs ∧ ps.map bits = bs := by
  constructor
  · intro h
    induction h with
    | nil => exact ⟨[], rfl, rfl⟩
    | cons hc _ ih =>
      obtain ⟨p, rfl, rfl⟩ := isLetter_iff.1 hc
      obtain ⟨ps, rfl, rfl⟩ := ih
      exact ⟨p :: ps, rfl, rfl⟩
  · rintro ⟨ps, rfl, rfl⟩
    rw [List.forall₂_map_left_iff, List.forall₂_map_right_iff, List.forall₂_same]
    intro p _
    exact isLetter_iff.2 ⟨p, rfl, rfl⟩

end Pauli

/-! ## Signs -/

namespace Phase

theorem code_injective : Function.Injective code := by
  intro p q h
  cases p <;> cases q <;> first | rfl | cases h

/-- A sign is taken off whole, if what follows does not continue it. -/
theorem exists_split_append {sign cs : List Char} {code : UInt8} (h : IsSign sign code)
    (hcs : EndsSign sign cs) : ∃ p : Phase, p.code = code ∧ split (sign ++ cs) = (p, cs) := by
  have hne {c d : Char} {code : UInt8} (hc : cs.head? = some c) (hd : IsSign (sign ++ [d]) code) :
      d ≠ c := by
    rintro rfl
    exact hcs d hc code hd
  -- the sign may be the beginning of a longer one, which the first character of `cs` rules out
  cases h with
  | unsigned =>
    refine ⟨.plusOne, rfl, ?_⟩
    cases cs with
    | nil => rfl
    | cons c cs => simp [split, signs, Text.dropStart?, hne rfl .plus, hne rfl .minus]
  | plus =>
    refine ⟨.plusOne, rfl, ?_⟩
    cases cs with
    | nil => rfl
    | cons c cs => simp [split, signs, Text.dropStart?, hne rfl .plusOne, hne rfl .plusI]
  | minus =>
    refine ⟨.minusOne, rfl, ?_⟩
    cases cs with
    | nil => rfl
    | cons c cs => simp [split, signs, Text.dropStart?, hne rfl .minusOne, hne rfl .minusI]
  | plusOne => exact ⟨.plusOne, rfl, by simp [split, signs, Text.dropStart?]⟩
  | minusOne => exact ⟨.minusOne, rfl, by simp [split, signs, Text.dropStart?]⟩
  | plusI => exact ⟨.plusI, rfl, by simp [split, signs, Text.dropStart?]⟩
  | minusI => exact ⟨.minusI, rfl, by simp [split, signs, Text.dropStart?]⟩

theorem exists_code_eq {sign : List Char} {code : UInt8} (h : IsSign sign code) :
    ∃ p : Phase, p.code = code := by
  have hends : EndsSign sign [] := nofun
  obtain ⟨p, hp, -⟩ := exists_split_append h hends
  exact ⟨p, hp⟩

/-- The sign of a row can be continued to a longest one. -/
theorem exists_longest_sign {sign : List Char} {code : UInt8} (h : IsSign sign code)
    (cs : List Char) : ∃ sign' code' cs', sign ++ cs = sign' ++ cs' ∧ IsSign sign' code' ∧
      EndsSign sign' cs' := by
  induction cs generalizing sign code with
  | nil => exact ⟨sign, code, [], rfl, h, nofun⟩
  | cons c cs ih =>
    by_cases hc : ∃ code', IsSign (sign ++ [c]) code'
    · obtain ⟨code', hcode⟩ := hc
      obtain ⟨sign', code', cs', heq, hsign⟩ := ih hcode
      exact ⟨sign', code', cs', by rw [← heq, List.append_assoc, List.singleton_append], hsign⟩
    · refine ⟨sign, code, c :: cs, rfl, h, ?_⟩
      rintro d hd code' hcode
      obtain rfl := Option.some.inj hd
      exact hc ⟨code', hcode⟩

/-- What is taken off a row is the longest sign. -/
theorem exists_split (row : List Char) : ∃ sign p cs, row = sign ++ cs ∧ IsSign sign p.code ∧
    EndsSign sign cs ∧ split row = (p, cs) := by
  obtain ⟨sign, code, cs, rfl, hsign, hends⟩ := exists_longest_sign .unsigned row
  obtain ⟨p, rfl, hsplit⟩ := exists_split_append hsign hends
  exact ⟨sign, p, cs, rfl, hsign, hends, hsplit⟩

theorem not_isSign_snoc_letter (sign : List Char) (p : Pauli) (c : UInt8) :
    ¬ IsSign (sign ++ [p.letter]) c := by
  intro h
  generalize hrow : sign ++ [p.letter] = row at h
  have hlast : row.getLast? = some p.letter := by rw [← hrow, List.getLast?_concat]
  cases h <;> cases p <;> simp [Pauli.letter] at hlast

theorem endsSign_letters (sign : List Char) (ps : List Pauli) :
    EndsSign sign (ps.map Pauli.letter) := by
  intro c hc code
  rw [List.head?_map] at hc
  obtain ⟨p, -, rfl⟩ := Option.map_eq_some_iff.1 hc
  exact not_isSign_snoc_letter sign p code

end Phase

/-! ## Reading a word -/

/-- A phase and the operators on the qubits. -/
abbrev Row := Phase × List Pauli

namespace Tableau

variable {row : Nat} {cs : List Char} {ps : List Pauli} {f : TableauFault} {word : String}

theorem readLetters_letters (row : Nat) (ps : List Pauli) :
    readLetters row (ps.map Pauli.letter) = .ok ps := by
  induction ps with
  | nil => rfl
  | cons p ps ih =>
    simp only [List.map_cons, readLetters, Pauli.ofLetter?_letter, ih]
    rfl

theorem readLetters_eq_ok_iff : readLetters row cs = .ok ps ↔ ps.map Pauli.letter = cs := by
  refine ⟨fun h => ?_, fun h => h ▸ readLetters_letters row ps⟩
  induction cs generalizing ps with
  | nil => cases h; rfl
  | cons c cs ih =>
    unfold readLetters at h
    split at h
    · cases h
    · next p hp =>
      obtain ⟨qs, hqs, hok⟩ := bind_eq_ok_iff.1 h
      cases hok
      rw [List.map_cons, Pauli.ofLetter?_eq_some_iff.1 hp, ih hqs]

theorem readLetters_eq_error_iff : readLetters row cs = .error f ↔
    ∃ (ps : List Pauli) (c : Char) (rest : List Char), ps.map Pauli.letter ++ c :: rest = cs ∧
      (∀ b, ¬ IsLetter c b) ∧ .invalidLetter row c = f := by
  induction cs with
  | nil => simp [readLetters]
  | cons c cs ih =>
    unfold readLetters
    split
    · next hc =>
      have hnot := Pauli.ofLetter?_eq_none_iff.1 hc
      constructor
      · intro h
        exact ⟨[], c, cs, rfl, hnot, Except.error.inj h⟩
      · rintro ⟨ps, d, rest, hcs, -, rfl⟩
        cases ps with
        | nil => rw [(List.cons.inj hcs).1]
        | cons p ps =>
          have hp : p.letter = c := (List.cons.inj hcs).1
          exact absurd (Pauli.isLetter_iff.2 ⟨p, hp, rfl⟩) (hnot p.bits)
    · next p hp =>
      have hletter : p.letter = c := Pauli.ofLetter?_eq_some_iff.1 hp
      rw [bind_eq_error_iff]
      constructor
      · rintro (h | ⟨ps, -, h⟩)
        · obtain ⟨ps, d, rest, rfl, hd, rfl⟩ := ih.1 h
          exact ⟨p :: ps, d, rest, by rw [List.map_cons, hletter, List.cons_append], hd, rfl⟩
        · cases h
      · rintro ⟨ps, d, rest, hcs, hd, rfl⟩
        cases ps with
        | nil =>
          have hdc : d = c := (List.cons.inj hcs).1
          exact absurd (Pauli.isLetter_iff.2 ⟨p, hletter.trans hdc.symm, rfl⟩) (hd p.bits)
        | cons q ps => exact .inl (ih.2 ⟨ps, d, rest, (List.cons.inj hcs).2, hd, rfl⟩)

/-- **A word is read as the row that it denotes.** -/
theorem readWord_eq_ok_iff {w : Row} :
    readWord row word = .ok w ↔ Denotes word w.1.code (w.2.map Pauli.bits) := by
  unfold readWord Denotes
  show (readLetters row (Phase.split (Text.withoutBlanks word)).2 >>= fun ps =>
    .ok ((Phase.split (Text.withoutBlanks word)).1, ps)) = .ok w ↔ _
  constructor
  · intro h
    obtain ⟨sign, p, cs, hrow, hsign, -, hsplit⟩ := Phase.exists_split (Text.withoutBlanks word)
    rw [hsplit] at h
    obtain ⟨ps, hps, hok⟩ := bind_eq_ok_iff.1 h
    cases hok
    have hletters : ps.map Pauli.letter = cs := readLetters_eq_ok_iff.1 hps
    exact ⟨sign, cs, hrow, hsign, Pauli.forall₂_isLetter_iff.2 ⟨ps, hletters, rfl⟩⟩
  · rintro ⟨sign, cs, hrow, hsign, hletters⟩
    obtain ⟨ps, rfl, hbits⟩ := Pauli.forall₂_isLetter_iff.1 hletters
    obtain rfl := List.map_injective_iff.2 Pauli.bits_injective hbits
    obtain ⟨p, hp, hsplit⟩ :=
      Phase.exists_split_append hsign (Phase.endsSign_letters sign w.2)
    obtain rfl := Phase.code_injective hp
    rw [hrow, hsplit, readLetters_letters]
    rfl

/-- **Any other word is refused at its first character that is no letter.** -/
theorem readWord_eq_error_iff :
    readWord row word = .error f ↔ ∃ c, StopsAt word c ∧ .invalidLetter row c = f := by
  unfold readWord StopsAt
  show (readLetters row (Phase.split (Text.withoutBlanks word)).2 >>= fun ps =>
    Except.ok ((Phase.split (Text.withoutBlanks word)).1, ps)) = .error f ↔ _
  constructor
  · intro h
    obtain ⟨sign, p, cs, hrow, hsign, hends, hsplit⟩ :=
      Phase.exists_split (Text.withoutBlanks word)
    rw [hsplit] at h
    rcases bind_eq_error_iff.1 h with h | ⟨ps, -, h⟩
    · obtain ⟨ps, c, rest, rfl, hc, hf⟩ := readLetters_eq_error_iff.1 h
      have hletters := Pauli.forall₂_isLetter_iff.2 ⟨ps, rfl, rfl⟩
      exact ⟨c, ⟨sign, _, _, _, rest, hrow, hsign, hends, hletters, hc⟩, hf⟩
    · cases h
  · rintro ⟨c, ⟨sign, code, letters, bits, rest, hrow, hsign, hends, hletters, hc⟩, hf⟩
    obtain ⟨ps, rfl, -⟩ := Pauli.forall₂_isLetter_iff.1 hletters
    obtain ⟨p, -, hsplit⟩ := Phase.exists_split_append hsign hends
    rw [hrow, hsplit]
    exact bind_eq_error_iff.2 (.inl (readLetters_eq_error_iff.2 ⟨ps, c, rest, rfl, hc, hf⟩))

theorem isRowWord_iff (row : Nat) {n : Nat} :
    IsRowWord n word ↔ ∃ w : Row, readWord row word = .ok w ∧ w.2.length = n := by
  constructor
  · rintro ⟨code, bits, h, rfl⟩
    have hdenotes := h
    obtain ⟨sign, letters, -, hsign, hletters⟩ := h
    obtain ⟨p, rfl⟩ := Phase.exists_code_eq hsign
    obtain ⟨ps, -, rfl⟩ := Pauli.forall₂_isLetter_iff.1 hletters
    exact ⟨(p, ps), readWord_eq_ok_iff.2 hdenotes, (List.length_map _).symm⟩
  · rintro ⟨w, h, rfl⟩
    exact ⟨_, _, readWord_eq_ok_iff.1 h, List.length_map _⟩

theorem eq_of_isRowWord {m n : Nat} (hm : IsRowWord m word) (hn : IsRowWord n word) : m = n := by
  obtain ⟨v, hv, rfl⟩ := (isRowWord_iff 0).1 hm
  obtain ⟨w, hw, rfl⟩ := (isRowWord_iff 0).1 hn
  rw [hv] at hw
  cases hw
  rfl

theorem not_isRowWord_of_stopsAt {c : Char} (h : StopsAt word c) (n : Nat) :
    ¬ IsRowWord n word := by
  intro hword
  obtain ⟨w, hw, -⟩ := (isRowWord_iff 0).1 hword
  rw [readWord_eq_error_iff.2 ⟨c, h, rfl⟩] at hw
  cases hw

/-! ## Reading words -/

/-- The tableau of rows. -/
def ofRows (ws : List Row) : Tableau :=
  ⟨ws.map (·.2.map Pauli.xBit), ws.map (·.2.map Pauli.zBit), ws.map (·.1.code)⟩

variable {length : Option Nat} {words : List String} {t : Tableau}

theorem readWords_cons_eq_ok_iff : readWords row length (word :: words) = .ok t ↔
    ∃ w t', readWord row word = .ok w ∧ (∀ n ∈ length, w.2.length = n) ∧
      readWords (row + 1) (some (length.getD w.2.length)) words = .ok t' ∧
      t'.addRow w.1 w.2 = t := by
  rw [readWords, bind_eq_ok_iff]
  refine exists_congr fun w => ?_
  cases length with
  | none => simp [bind_eq_ok_iff]
  | some n =>
    by_cases hn : w.2.length = n
    · simp [hn, bind_eq_ok_iff]
    · simp [hn, throw, throwThe, MonadExceptOf.throw, bind_eq_ok_iff]

/-- After a word of `k` letters, words of `n` letters are still asked for when both are as many as
have been asked for. -/
theorem asked_getD_iff {k n : Nat} :
    ((∀ m ∈ length, k = m) ∧ ∀ m ∈ some (length.getD k), n = m) ↔
      k = n ∧ ∀ m ∈ length, n = m := by
  cases length with
  | none => simp [eq_comm]
  | some m =>
    simp only [Option.mem_def, Option.some.injEq, Option.getD_some, forall_eq']
    omega

/-- Words are read when they denote rows of the length that is asked for. -/
theorem readWords_eq_ok_iff : readWords row length words = .ok t ↔
    ∃ (ws : List Row) (n : Nat),
      List.Forall₂ (fun word w => Denotes word w.1.code (w.2.map Pauli.bits)) words ws ∧
      (∀ m ∈ length, n = m) ∧ (∀ w ∈ ws, w.2.length = n) ∧ ofRows ws = t := by
  induction words generalizing row length t with
  | nil =>
    constructor
    · intro h
      refine ⟨[], length.getD 0, .nil, fun m hm => ?_, by simp, Except.ok.inj h⟩
      rw [hm]
      rfl
    · rintro ⟨ws, n, hws, -, -, rfl⟩
      cases hws
      rfl
  | cons word words ih =>
    rw [readWords_cons_eq_ok_iff]
    constructor
    · rintro ⟨w, t', hw, hlen, hrest, rfl⟩
      obtain ⟨ws, n, hws, hn, hlens, rfl⟩ := ih.1 hrest
      obtain ⟨hwn, hn⟩ := asked_getD_iff.1 ⟨hlen, hn⟩
      exact ⟨w :: ws, n, .cons (readWord_eq_ok_iff.1 hw) hws, hn,
        List.forall_mem_cons.2 ⟨hwn, hlens⟩, rfl⟩
    · rintro ⟨_, n, hws, hn, hlens, rfl⟩
      cases hws with
      | @cons _ w _ ws hw hws =>
        obtain ⟨hwn, hlens⟩ := List.forall_mem_cons.1 hlens
        obtain ⟨hlen, hn⟩ := asked_getD_iff.2 ⟨hwn, hn⟩
        exact ⟨w, ofRows ws, readWord_eq_ok_iff.2 hw, hlen, ih.2 ⟨ws, n, hws, hn, hlens, rfl⟩, rfl⟩

theorem readWords_cons_eq_error_iff : readWords row length (word :: words) = .error f ↔
    readWord row word = .error f ∨ ∃ w, readWord row word = .ok w ∧
      ((∃ n ∈ length, w.2.length ≠ n ∧ .wordLength row w.2.length n = f) ∨
        (∀ n ∈ length, w.2.length = n) ∧
          readWords (row + 1) (some (length.getD w.2.length)) words = .error f) := by
  rw [readWords, bind_eq_error_iff]
  refine or_congr_right (exists_congr fun w => and_congr_right fun _ => ?_)
  cases length with
  | none => simp [bind_eq_error_iff]
  | some n =>
    by_cases hn : w.2.length = n
    · simp [hn, bind_eq_error_iff]
    · simp [hn, throw, throwThe, MonadExceptOf.throw, bind_eq_error_iff]

/-- The word at which the reading ends denotes no row, or one of another length. -/
theorem readWords_eq_error_iff : readWords row length words = .error f ↔
    ∃ (before : List String) (word : String) (after : List String) (n : Nat),
      before ++ word :: after = words ∧ (∀ m ∈ length, n = m) ∧ (∀ w ∈ before, IsRowWord n w) ∧
      ((∃ c, StopsAt word c ∧ .invalidLetter (row + before.length) c = f) ∨
        ∃ m, (before = [] → length ≠ none) ∧ IsRowWord m word ∧ m ≠ n ∧
          .wordLength (row + before.length) m n = f) := by
  have hplace (row : Nat) (word : String) (before : List String) :
      row + (word :: before).length = row + 1 + before.length := by
    rw [List.length_cons]
    omega
  induction words generalizing row length with
  | nil => simp [readWords]
  | cons word words ih =>
    rw [readWords_cons_eq_error_iff]
    constructor
    · rintro (h | ⟨w, hw, ⟨n, hn, hne, hf⟩ | ⟨hlen, h⟩⟩)
      -- the first word is refused for a letter, or for its length, or a later word is
      · obtain ⟨c, hc, hf⟩ := readWord_eq_error_iff.1 h
        refine ⟨[], word, words, length.getD 0, rfl, fun m hm => ?_, by simp, .inl ⟨c, hc, hf⟩⟩
        rw [hm]
        rfl
      · refine ⟨[], word, words, n, rfl, fun m hm => Option.some.inj (hn.symm.trans hm), by simp,
          .inr ⟨w.2.length, fun _ => ?_, (isRowWord_iff row).2 ⟨w, hw, rfl⟩, hne, hf⟩⟩
        exact Option.ne_none_iff_exists'.2 ⟨n, hn⟩
      · obtain ⟨before, word', after, n, rfl, hn, hbefore, h⟩ := ih.1 h
        obtain ⟨hwn, hn⟩ := asked_getD_iff.1 ⟨hlen, hn⟩
        have hword : IsRowWord n word := (isRowWord_iff row).2 ⟨w, hw, hwn⟩
        refine ⟨word :: before, word', after, n, rfl, hn,
          List.forall_mem_cons.2 ⟨hword, hbefore⟩, ?_⟩
        rw [hplace]
        rcases h with h | ⟨m, -, h⟩
        · exact .inl h
        · exact .inr ⟨m, nofun, h⟩
    · rintro ⟨before, word', after, n, heq, hn, hbefore, h⟩
      cases before with
      | nil =>
        obtain ⟨rfl, rfl⟩ := List.cons.inj heq
        rcases h with ⟨c, hc, hf⟩ | ⟨m, hlength, hword, hne, hf⟩
        · exact .inl (readWord_eq_error_iff.2 ⟨c, hc, hf⟩)
        · obtain ⟨w, hw, rfl⟩ := (isRowWord_iff row).1 hword
          obtain ⟨k, hk⟩ := Option.ne_none_iff_exists'.1 (hlength rfl)
          obtain rfl := hn k hk
          exact .inr ⟨w, hw, .inl ⟨n, hk, hne, hf⟩⟩
      | cons word'' before =>
        obtain ⟨rfl, rfl⟩ := List.cons.inj heq
        obtain ⟨hword, hbefore⟩ := List.forall_mem_cons.1 hbefore
        obtain ⟨w, hw, hwn⟩ := (isRowWord_iff row).1 hword
        obtain ⟨hlen, hn⟩ := asked_getD_iff.2 ⟨hwn, hn⟩
        rw [hplace] at h
        refine .inr ⟨w, hw, .inr ⟨hlen, ih.2 ⟨before, word', after, n, rfl, hn, hbefore, ?_⟩⟩⟩
        rcases h with h | ⟨m, -, h⟩
        · exact .inl h
        · exact .inr ⟨m, nofun, h⟩

/-! ## Reading a tableau -/

theorem ofGenerators_eq_error_iff : ofGenerators words = .error f ↔ Refuses words f := by
  unfold ofGenerators
  rw [readWords_eq_error_iff]
  constructor
  · rintro ⟨before, word, after, n, rfl, -, hbefore, ⟨c, hc, rfl⟩ | ⟨m, hne, hword, hm, rfl⟩⟩
    · rw [Nat.zero_add]
      exact .letter hbefore (not_isRowWord_of_stopsAt hc) hc
    · rw [Nat.zero_add]
      exact .length (fun hnil => hne hnil rfl) hbefore hword hm
  · intro h
    cases h with
    | @letter before after word n c hbefore _ hc =>
      exact ⟨before, word, after, n, rfl, by simp, hbefore, .inl ⟨c, hc, by rw [Nat.zero_add]⟩⟩
    | @length before after word n m hne hbefore hword hm =>
      exact ⟨before, word, after, n, rfl, by simp, hbefore,
        .inr ⟨m, fun hnil => absurd hnil hne, hword, hm, by rw [Nat.zero_add]⟩⟩

theorem message_invalidLetter (row : Nat) (c : Char) :
    (TableauFault.invalidLetter row c).message =
      "Invalid tableau: generator " ++ toString row ++
        (": invalid Pauli '" ++ c.toString ++ "'") := by
  have hhead : "Invalid tableau: generator " = "Invalid tableau: " ++ "generator " := rfl
  show "Invalid tableau: " ++
    ("generator " ++ toString row ++ ": invalid Pauli '" ++ c.toString ++ "'") = _
  rw [hhead]
  simp only [String.append_assoc]

theorem message_wordLength (row found expected : Nat) :
    (TableauFault.wordLength row found expected).message =
      "Invalid tableau: generator " ++ toString row ++
        (" acts on " ++ toString found ++ " qubits, expected " ++ toString expected) := by
  have hhead : "Invalid tableau: generator " = "Invalid tableau: " ++ "generator " := rfl
  show "Invalid tableau: " ++ ("generator " ++ toString row ++ " acts on " ++ toString found ++
    " qubits, expected " ++ toString expected) = _
  rw [hhead]
  simp only [String.append_assoc]

/-- What is reported names the first word with which the list no longer denotes rows on as many
qubits. -/
theorem exists_first_of_refuses (h : Refuses words f) :
    ∃ (before : List String) (word : String) (after : List String) (what : String),
      words = before ++ word :: after ∧ (∃ n, ∀ w ∈ before, IsRowWord n w) ∧
      (¬ ∃ n, ∀ w ∈ before ++ [word], IsRowWord n w) ∧
      f.message = "Invalid tableau: generator " ++ toString before.length ++ what := by
  cases h with
  | @letter before after word n c hbefore hword hc =>
    refine ⟨before, word, after, _, rfl, ⟨n, hbefore⟩, ?_, message_invalidLetter _ c⟩
    rintro ⟨m, hm⟩
    exact hword m (hm word (by simp))
  | @length before after word n m hne hbefore hword hm =>
    refine ⟨before, word, after, _, rfl, ⟨n, hbefore⟩, ?_, message_wordLength _ m n⟩
    rintro ⟨k, hk⟩
    obtain ⟨w, hw⟩ := List.exists_mem_of_ne_nil before hne
    have hn : n = k := eq_of_isRowWord (hbefore w hw) (hk w (List.mem_append_left _ hw))
    exact hm ((eq_of_isRowWord hword (hk word (by simp))).trans hn.symm)

/-- The rows of a tableau that has been read are those that its words denote. -/
theorem exists_row_of_ofGenerators (h : ofGenerators words = .ok t) {k : Nat}
    (hk : words[k]? = some word) : ∃ code bits, Denotes word code bits ∧
      t.x[k]? = some (bits.map (·.1)) ∧ t.z[k]? = some (bits.map (·.2)) ∧ t.r[k]? = some code := by
  obtain ⟨ws, -, hws, -, -, rfl⟩ := readWords_eq_ok_iff.1 h
  obtain ⟨hlt, rfl⟩ := List.getElem?_eq_some_iff.1 hk
  have hk' : k < ws.length := hws.length_eq ▸ hlt
  refine ⟨ws[k].1.code, ws[k].2.map Pauli.bits, hws.get hlt hk', ?_, ?_, ?_⟩
  · simp [ofRows, hk', Pauli.bits, Function.comp_def]
  · simp [ofRows, hk', Pauli.bits, Function.comp_def]
  · simp [ofRows, hk']

/-- A list of words is read when all of them denote rows on as many qubits. -/
theorem exists_ofGenerators_eq_ok_iff :
    (∃ t, ofGenerators words = .ok t) ↔ ∃ n, ∀ word ∈ words, IsRowWord n word := by
  constructor
  · rintro ⟨t, h⟩
    obtain ⟨ws, n, hws, -, hlens, -⟩ := readWords_eq_ok_iff.1 h
    refine ⟨n, fun word hword => ?_⟩
    obtain ⟨k, hk, rfl⟩ := List.getElem_of_mem hword
    have hk' : k < ws.length := hws.length_eq ▸ hk
    refine ⟨_, _, hws.get hk hk', ?_⟩
    rw [List.length_map]
    exact hlens _ (List.get_mem ..)
  · rintro ⟨n, hwords⟩
    cases h : ofGenerators words with
    | ok t => exact ⟨t, rfl⟩
    | error f =>
      obtain ⟨before, word, after, -, rfl, -, hnot, -⟩ :=
        exists_first_of_refuses (ofGenerators_eq_error_iff.1 h)
      refine absurd ⟨n, fun w hw => hwords w ?_⟩ hnot
      rw [List.append_cons]
      exact List.mem_append_left _ hw

/-- **Words make a tableau exactly when they denote rows on as many qubits.**  The tableau then has
for each word, in order, the bits of its letters and the code of its sign.  Any other list is
refused for the first word with which it stops being such a list, and a letter that is none is
reported before a length that differs. -/
theorem ofGenerators_grammar (words : List String) :
    ((∃ t, ofGenerators words = .ok t) ↔ ∃ n, ∀ word ∈ words, IsRowWord n word) ∧
    (∀ t, ofGenerators words = .ok t →
      t.x.length = words.length ∧ t.z.length = words.length ∧ t.r.length = words.length ∧
      ∀ (k : Nat) (word : String), words[k]? = some word → ∃ code bits, Denotes word code bits ∧
        t.x[k]? = some (bits.map (·.1)) ∧ t.z[k]? = some (bits.map (·.2)) ∧
        t.r[k]? = some code) ∧
    (∀ f, ofGenerators words = .error f ↔ Refuses words f) ∧
    ∀ f, ofGenerators words = .error f →
      ∃ (before : List String) (word : String) (after : List String) (what : String),
        words = before ++ word :: after ∧ (∃ n, ∀ w ∈ before, IsRowWord n w) ∧
        (¬ ∃ n, ∀ w ∈ before ++ [word], IsRowWord n w) ∧
        f.message = "Invalid tableau: generator " ++ toString before.length ++ what := by
  refine ⟨exists_ofGenerators_eq_ok_iff, ?rows, ?refused, ?first⟩
  case rows =>
    intro t h
    obtain ⟨ws, -, hws, -, -, rfl⟩ := readWords_eq_ok_iff.1 h
    have hlen : ws.length = words.length := hws.length_eq.symm
    refine ⟨by simp [ofRows, hlen], by simp [ofRows, hlen], by simp [ofRows, hlen], ?_⟩
    intro k word hk
    exact exists_row_of_ofGenerators h hk
  case refused =>
    intro f
    exact ofGenerators_eq_error_iff
  case first =>
    intro f h
    exact exists_first_of_refuses (ofGenerators_eq_error_iff.1 h)

/-- A sign with a blank in it, a sign of two characters and none; and a letter in a word of another
length, which is reported before the length. -/
theorem ofGenerators_grammar_blanks :
    (∃ t, ofGenerators ["+ 1X Z", "-iIY", "ZZ"] = .ok t ∧
      (∃ n, ∀ word ∈ ["+ 1X Z", "-iIY", "ZZ"], IsRowWord n word) ∧
      ∃ code bits, Denotes "-iIY" code bits ∧ t.x[1]? = some (bits.map (·.1)) ∧
        t.z[1]? = some (bits.map (·.2)) ∧ t.r[1]? = some code) ∧
    Refuses ["+X", "ZiZ", "ZZ"] (.invalidLetter 1 'i') ∧
    ∃ (before : List String) (word : String) (after : List String) (what : String),
      ["+X", "ZZ", "ZiZ"] = before ++ word :: after ∧
      (¬ ∃ n, ∀ w ∈ before ++ [word], IsRowWord n w) ∧
      (TableauFault.wordLength 1 2 1).message =
        "Invalid tableau: generator " ++ toString before.length ++ what := by
  have hread : ofGenerators ["+ 1X Z", "-iIY", "ZZ"] =
      .ok ⟨[[1, 0], [0, 1], [0, 0]], [[0, 1], [0, 1], [1, 1]], [0, 3, 0]⟩ := by rfl
  have hletter : ofGenerators ["+X", "ZiZ", "ZZ"] = .error (.invalidLetter 1 'i') := by rfl
  have hlength : ofGenerators ["+X", "ZZ", "ZiZ"] = .error (.wordLength 1 2 1) := by rfl
  obtain ⟨-, -, -, hrows⟩ := (ofGenerators_grammar _).2.1 _ hread
  obtain ⟨before, word, after, what, hwords, -, hfirst⟩ := (ofGenerators_grammar _).2.2.2 _ hlength
  exact ⟨⟨_, hread, (ofGenerators_grammar _).1.1 ⟨_, hread⟩, hrows 1 "-iIY" rfl⟩,
    ((ofGenerators_grammar _).2.2.1 _).1 hletter, before, word, after, what, hwords, hfirst⟩

end Tableau

end QuantumWiring
