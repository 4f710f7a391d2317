import QuantumWiring.Correction.Request
import QuantumWiring.Proofs.Text.Decimal
import Mathlib.Data.List.DropRight

/-!
# The grammar of typed errors

An error is typed as its kind and its qubit around the first colon of a text, with any blanks around
either.  The kind is one letter of either case and the qubit a count of 64 bits in decimal digits,
with as many leading zeros as one likes and perhaps a plus sign.  `Spells` is that grammar and
`Refuses` says what is reported of any other text: that there is no colon, or else that the qubit is
none, or else that the kind is none (`parse_grammar`).
-/

namespace QuantumWiring

namespace Text

variable {c : Char} {cs core : List Char}

/-! ## Blanks around a text -/

/-- `core` is what is left of a text between the blanks at its ends. -/
structure IsCore (core cs : List Char) : Prop where
  surrounded : ∃ before after, cs = before ++ core ++ after ∧ (∀ c ∈ before, isBlank c) ∧
    ∀ c ∈ after, isBlank c
  head_not_blank : ∀ c, core.head? = some c → isBlank c = false
  last_not_blank : ∀ c, core.getLast? = some c → isBlank c = false

theorem isCore_trim (cs : List Char) : IsCore (trim cs) cs := by
  have htrim : trim cs = (cs.dropWhile isBlank).rdropWhile isBlank := rfl
  have hprefix : trim cs <+: cs.dropWhile isBlank := htrim ▸ List.rdropWhile_prefix isBlank _
  refine ⟨⟨cs.takeWhile isBlank, (cs.dropWhile isBlank).rtakeWhile isBlank, ?_,
    fun c => List.mem_takeWhile_imp, fun c => List.mem_rtakeWhile_imp⟩, fun c hc => ?_, fun c hc => ?_⟩
  · rw [htrim, List.append_assoc, List.rdropWhile_append_rtakeWhile,
      List.takeWhile_append_dropWhile]
  · have hhead : (cs.dropWhile isBlank).head? = some c := by
      obtain ⟨rest, hrest⟩ := hprefix
      rw [← hrest, List.head?_append, hc]
      rfl
    have hnot := List.head?_dropWhile_not isBlank cs
    rwa [hhead] at hnot
  · have hne : trim cs ≠ [] := by
      rintro hnil
      rw [hnil] at hc
      cases hc
    rw [List.getLast?_eq_some_getLast hne] at hc
    obtain rfl := Option.some.inj hc
    exact Bool.eq_false_iff.2 (List.rdropWhile_last_not isBlank (cs.dropWhile isBlank) hne)

theorem dropWhile_eq_self_of_head (h : ∀ c, cs.head? = some c → isBlank c = false) :
    cs.dropWhile isBlank = cs := by
  cases cs with
  | nil => rfl
  | cons c rest => simp [h c rfl]

theorem trim_of_isCore (h : IsCore core cs) : trim cs = core := by
  obtain ⟨⟨before, after, rfl, hbefore, hafter⟩, hhead, hlast⟩ := h
  have hleft : (before ++ core ++ after).dropWhile isBlank = (core ++ after).dropWhile isBlank := by
    rw [List.append_assoc, List.dropWhile_append_of_pos hbefore]
  have hright : trimRight (core ++ after) = core := by
    have hlast' : ∀ c, core.reverse.head? = some c → isBlank c = false := by
      simpa using hlast
    unfold trimRight
    rw [List.reverse_append, List.dropWhile_append_of_pos (by simpa using hafter),
      dropWhile_eq_self_of_head hlast', List.reverse_reverse]
  unfold trim
  rw [hleft]
  cases core with
  | nil =>
    rw [List.nil_append, List.dropWhile_eq_nil_iff.2 hafter]
    rfl
  | cons c rest => rw [List.cons_append, List.dropWhile_cons_of_neg (by simp [hhead c rfl]),
      ← List.cons_append, hright]

theorem isCore_self (h : ∀ c ∈ cs, isBlank c = false) : IsCore cs cs :=
  ⟨⟨[], [], by simp, by simp, by simp⟩, fun c hc => h c (List.mem_of_mem_head? hc),
    fun c hc => h c (List.mem_of_mem_getLast? hc)⟩

theorem isCore_iff : IsCore core cs ↔ trim cs = core :=
  ⟨trim_of_isCore, fun h => h ▸ isCore_trim cs⟩

theorem isBlank_of_isDigit (h : c.isDigit) : isBlank c = false := by
  obtain ⟨hlow, hhigh⟩ : 48 ≤ c.toNat ∧ c.toNat ≤ 57 := by
    simpa [Char.isDigit, UInt32.le_iff_toNat_le] using h
  simp only [isBlank, Bool.or_eq_false_iff, Bool.and_eq_false_iff, decide_eq_false_iff_not,
    beq_eq_false_iff_ne]
  omega

/-! ## The first colon -/

theorem cut?_eq_some_iff {a b : List Char} : cut? c cs = some (a, b) ↔ cs = a ++ c :: b ∧ c ∉ a := by
  induction cs generalizing a with
  | nil => simp [cut?]
  | cons d rest ih =>
    unfold cut?
    constructor
    · intro h
      split at h
      · next hd =>
        cases h
        exact ⟨by rw [hd, List.nil_append], List.not_mem_nil⟩
      · next hd =>
        obtain ⟨_, hrest, hcut⟩ := Option.map_eq_some_iff.1 h
        cases hcut
        obtain ⟨rfl, hnot⟩ := ih.1 hrest
        exact ⟨rfl, List.not_mem_cons_of_ne_of_not_mem (Ne.symm hd) hnot⟩
    · rintro ⟨hcs, hnot⟩
      cases a with
      | nil =>
        obtain ⟨rfl, rfl⟩ := List.cons.inj hcs
        rw [if_pos rfl]
      | cons e a =>
        obtain ⟨rfl, hrest⟩ := List.cons.inj hcs
        have hd : ¬ d = c := by
          rintro rfl
          exact hnot List.mem_cons_self
        rw [if_neg hd, ih.2 ⟨hrest, fun hmem => hnot (List.mem_cons_of_mem _ hmem)⟩]
        rfl

theorem cut?_eq_none_iff : cut? c cs = none ↔ c ∉ cs := by
  induction cs with
  | nil => simp [cut?]
  | cons d rest ih =>
    unfold cut?
    by_cases hd : d = c
    · simp [hd]
    · rw [if_neg hd, Option.map_eq_none_iff, ih, List.mem_cons, not_or]
      exact (and_iff_right (Ne.symm hd)).symm

end Text

open Text

/-- A letter of either case that names a kind of error. -/
def ErrorKind.NamedBy (word : List Char) (k : ErrorKind) : Prop :=
  word = k.name.toList ∨ word = k.name.toList.map Char.toLower

theorem ErrorKind.ofLetters?_eq_some_iff {word : List Char} {k : ErrorKind} :
    ofLetters? word = some k ↔ NamedBy word k := by
  unfold NamedBy
  constructor
  · intro h
    unfold ofLetters? at h
    split at h <;> cases h <;> decide
  · rintro (rfl | rfl) <;> cases k <;> rfl

namespace PauliError

/-- What stands on both sides of the first colon of a text, without the blanks around it. -/
def HasParts (s : String) (kind qubit : List Char) : Prop :=
  ∃ before after, s.toList = before ++ ':' :: after ∧ ':' ∉ before ∧ IsCore kind before ∧
    IsCore qubit after

/-- The text spells an error. -/
def Spells (s : String) (e : PauliError) : Prop :=
  ∃ kind qubit, HasParts s kind qubit ∧ ErrorKind.NamedBy kind e.kind ∧
    WritesCount qubit e.qubit ∧ e.qubit < UInt64.size

/-- What is reported of a text that spells no error; a bad qubit is reported before a bad kind. -/
inductive Refuses (s : String) : RequestFault → Prop
  | noColon (h : ':' ∉ s.toList) : Refuses s (.errorSyntax s)
  | badQubit {kind qubit : List Char} (hparts : HasParts s kind qubit)
    (hqubit : ∀ n, WritesCount qubit n → UInt64.size ≤ n) : Refuses s (.errorQubit s)
  | badKind {kind qubit : List Char} {n : Nat} (hparts : HasParts s kind qubit)
    (hqubit : WritesCount qubit n) (hn : n < UInt64.size)
    (hkind : ∀ k, ¬ ErrorKind.NamedBy kind k) : Refuses s (.unknownError (String.ofList kind))

variable {s : String} {kind qubit : List Char}

theorem hasParts_iff : HasParts s kind qubit ↔
    ∃ before after, cut? ':' s.toList = some (before, after) ∧ trim before = kind ∧
      trim after = qubit := by
  simp only [HasParts, cut?_eq_some_iff, isCore_iff, and_assoc]

theorem parse_of_hasParts (h : HasParts s kind qubit) :
    parse s = match readBelow? UInt64.size qubit with
      | none => .error (.invalidRequest (.errorQubit s))
      | some qubit => (ErrorKind.parse (String.ofList kind)).map fun kind => ⟨kind, qubit⟩ := by
  obtain ⟨before, after, hcut, rfl, rfl⟩ := hasParts_iff.1 h
  unfold parse
  cases hread : readBelow? UInt64.size (trim after) <;> simp only [hcut, hread]

theorem errorKind_parse_eq_ok_iff {k : ErrorKind} :
    ErrorKind.parse (String.ofList kind) = .ok k ↔ ErrorKind.NamedBy kind k := by
  rw [← ErrorKind.ofLetters?_eq_some_iff]
  unfold ErrorKind.parse
  rw [String.toList_ofList]
  cases ErrorKind.ofLetters? kind <;> simp

theorem errorKind_parse_eq_error (h : ∀ k, ¬ ErrorKind.NamedBy kind k) :
    ErrorKind.parse (String.ofList kind) =
      .error (.invalidRequest (.unknownError (String.ofList kind))) := by
  have hnone : ErrorKind.ofLetters? kind = none :=
    Option.eq_none_iff_forall_ne_some.2 fun k hk => h k (ErrorKind.ofLetters?_eq_some_iff.1 hk)
  unfold ErrorKind.parse
  rw [String.toList_ofList, hnone]

theorem parse_of_spells {e : PauliError} (h : Spells s e) : parse s = .ok e := by
  obtain ⟨kind, qubit, hparts, hkind, hqubit, hlt⟩ := h
  rw [parse_of_hasParts hparts, readBelow?_eq_some_iff.2 ⟨hqubit, hlt⟩]
  simp only [errorKind_parse_eq_ok_iff.2 hkind]
  rfl

theorem parse_of_refuses {fault : RequestFault} (h : Refuses s fault) :
    parse s = .error (.invalidRequest fault) := by
  cases h with
  | noColon h =>
    unfold parse
    rw [cut?_eq_none_iff.2 h]
  | @badQubit kind qubit hparts hqubit =>
    have hnone : readBelow? UInt64.size qubit = none := by
      refine Option.eq_none_iff_forall_ne_some.2 fun n hn => ?_
      obtain ⟨hwrites, hlt⟩ := readBelow?_eq_some_iff.1 hn
      exact absurd hlt (Nat.not_lt.2 (hqubit n hwrites))
    rw [parse_of_hasParts hparts, hnone]
  | badKind hparts hqubit hn hkind =>
    rw [parse_of_hasParts hparts, readBelow?_eq_some_iff.2 ⟨hqubit, hn⟩]
    simp only [errorKind_parse_eq_error hkind]
    rfl

/-- Whatever is typed either spells an error or is refused. -/
theorem spells_or_refuses (s : String) : (∃ e, Spells s e) ∨ ∃ fault, Refuses s fault := by
  cases hcut : cut? ':' s.toList with
  | none => exact .inr ⟨_, .noColon (cut?_eq_none_iff.1 hcut)⟩
  | some parts =>
    have hparts : HasParts s (trim parts.1) (trim parts.2) :=
      hasParts_iff.2 ⟨parts.1, parts.2, hcut, rfl, rfl⟩
    by_cases hqubit : ∃ n, WritesCount (trim parts.2) n ∧ n < UInt64.size
    · obtain ⟨n, hwrites, hn⟩ := hqubit
      by_cases hkind : ∃ k, ErrorKind.NamedBy (trim parts.1) k
      · obtain ⟨k, hk⟩ := hkind
        exact .inl ⟨⟨k, n⟩, _, _, hparts, hk, hwrites, hn⟩
      · exact .inr ⟨_, .badKind hparts hwrites hn fun k hk => hkind ⟨k, hk⟩⟩
    · exact .inr ⟨_, .badQubit hparts fun n hn => Nat.not_lt.1 fun hlt => hqubit ⟨n, hn, hlt⟩⟩

/-- An error that is typed without blanks, its qubit as it is printed. -/
theorem spells_plain (k : ErrorKind) {n : Nat} (hn : n < UInt64.size) :
    Spells (k.name ++ ":" ++ toString n) ⟨k, n⟩ := by
  have hname : ∀ c ∈ k.name.toList, c ≠ ':' ∧ isBlank c = false := by
    cases k <;> simp [ErrorKind.name, isBlank]
  have hparts : HasParts (k.name ++ ":" ++ toString n) k.name.toList (toString n).toList :=
    ⟨k.name.toList, (toString n).toList, by simp, fun hcolon => (hname ':' hcolon).1 rfl,
      isCore_self fun c hc => (hname c hc).2,
      isCore_self fun c hc => isBlank_of_isDigit (isDigit_of_mem_toString hc)⟩
  exact ⟨_, _, hparts, .inl rfl, writesCount_toString n, hn⟩

/-- **Reading a typed error is deciding its grammar.**  A text is read as an error exactly when it
spells it, any other text is refused for the first of its faults, and what is printed as a kind, a
colon and a qubit of 64 bits is read back. -/
theorem parse_grammar (s : String) :
    (∀ e, parse s = .ok e ↔ Spells s e) ∧
    (∀ fault, parse s = .error fault ↔ ∃ reason, fault = .invalidRequest reason ∧ Refuses s reason) ∧
    ∀ (k : ErrorKind) (n : Nat), n < UInt64.size →
      parse (k.name ++ ":" ++ toString n) = .ok ⟨k, n⟩ := by
  refine ⟨fun e => ⟨fun h => ?_, parse_of_spells⟩, fun fault => ⟨fun h => ?_, ?_⟩,
    fun k n hn => parse_of_spells (spells_plain k hn)⟩
  · rcases spells_or_refuses s with ⟨e', he'⟩ | ⟨reason, hreason⟩
    · rw [parse_of_spells he'] at h
      cases h
      exact he'
    · rw [parse_of_refuses hreason] at h
      cases h
  · rcases spells_or_refuses s with ⟨e', he'⟩ | ⟨reason, hreason⟩
    · rw [parse_of_spells he'] at h
      cases h
    · rw [parse_of_refuses hreason] at h
      exact ⟨reason, (Except.error.inj h).symm, hreason⟩
  · rintro ⟨reason, rfl, hreason⟩
    exact parse_of_refuses hreason

/-- Blanks of any kind, a sign and leading zeros; the greatest qubit; a text with two faults. -/
theorem parse_samples :
    Spells "\u2003x :\t+007\u00a0" ⟨.X, 7⟩ ∧
    (UInt64.size - 1 < UInt64.size ∧
      parse (ErrorKind.Z.name ++ ":" ++ toString (UInt64.size - 1)) = .ok ⟨.Z, UInt64.size - 1⟩) ∧
    Refuses "W:18446744073709551616" (.errorQubit "W:18446744073709551616") := by
  have hlt : UInt64.size - 1 < UInt64.size := by decide
  obtain ⟨reason, hreason, hrefuses⟩ := ((parse_grammar "W:18446744073709551616").2.1
    (.invalidRequest (.errorQubit "W:18446744073709551616"))).1 (by rfl)
  cases hreason
  exact ⟨((parse_grammar _).1 ⟨.X, 7⟩).1 (by rfl), ⟨hlt, (parse_grammar "").2.2 .Z _ hlt⟩, hrefuses⟩

end PauliError

end QuantumWiring
