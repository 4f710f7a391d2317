import QuantumWiring.Proofs.Engine.Size
import Mathlib.Data.String.Basic

/-!
# The labels of basis states

The label of a place is a ket around its binary digits, padded to the count of qubits that was read
back from the number of probabilities.  Words of the same number of digits are ordered as the
numbers that they write (`ofDigitChars_lt_iff`), so a word is determined by its number and its
length, and padding gives the only word of that length (`binaryDigits_ofDigitChars`).  Hence the
labels of an accepted list are the kets of all words, once each and in increasing order
(`labeled_of_accepted`).
-/

namespace QuantumWiring

/-- A word of `n` binary digits. -/
structure IsBitWord (n : Nat) (word : List Char) : Prop where
  length_eq : word.length = n
  digit : ∀ c ∈ word, c = '0' ∨ c = '1'

namespace IsBitWord

variable {n : Nat} {c : Char} {ds es word : List Char}

theorem head (h : IsBitWord n (c :: ds)) : c = '0' ∨ c = '1' := h.digit c List.mem_cons_self

theorem tail (h : IsBitWord (n + 1) (c :: ds)) : IsBitWord n ds :=
  ⟨Nat.succ.inj h.length_eq, fun e he => h.digit e (List.mem_cons_of_mem _ he)⟩

/-- Behind numbers that are already written, words of one length compare like what they write. -/
theorem ofDigitChars_lt_iff (hds : IsBitWord n ds) (hes : IsBitWord n es) (a b : Nat) :
    Nat.ofDigitChars 2 ds a < Nat.ofDigitChars 2 es b ↔ a < b ∨ a = b ∧ ds < es := by
  induction n generalizing ds es a b with
  | zero =>
    rw [List.length_eq_zero_iff.1 hds.length_eq, List.length_eq_zero_iff.1 hes.length_eq]
    simp
  | succ n ih =>
    obtain ⟨c, ds, rfl⟩ := List.exists_cons_of_length_eq_add_one hds.length_eq
    obtain ⟨e, es, rfl⟩ := List.exists_cons_of_length_eq_add_one hes.length_eq
    rw [Nat.ofDigitChars_cons, Nat.ofDigitChars_cons, ih hds.tail hes.tail, List.cons_lt_cons_iff]
    rcases hds.head with rfl | rfl <;> rcases hes.head with rfl | rfl <;>
      by_cases htail : ds < es <;> simp [htail] <;> omega

theorem lt_iff (hds : IsBitWord n ds) (hes : IsBitWord n es) :
    ds < es ↔ Nat.ofDigitChars 2 ds 0 < Nat.ofDigitChars 2 es 0 := by
  simp [hds.ofDigitChars_lt_iff hes]

/-- A word is determined by its length and the number that it writes. -/
theorem eq_of_ofDigitChars_eq (hds : IsBitWord n ds) (hes : IsBitWord n es)
    (h : Nat.ofDigitChars 2 ds 0 = Nat.ofDigitChars 2 es 0) : ds = es := by
  rcases lt_trichotomy ds es with hlt | heq | hgt
  · exact absurd h (Nat.ne_of_lt ((hds.lt_iff hes).1 hlt))
  · exact heq
  · exact absurd h (Nat.ne_of_gt ((hes.lt_iff hds).1 hgt))

theorem ofDigitChars_lt (h : IsBitWord n word) (a : Nat) :
    Nat.ofDigitChars 2 word a < 2 ^ n * (a + 1) := by
  induction n generalizing word a with
  | zero =>
    rw [List.length_eq_zero_iff.1 h.length_eq]
    simp
  | succ n ih =>
    obtain ⟨c, ds, rfl⟩ := List.exists_cons_of_length_eq_add_one h.length_eq
    have hbit : c.toNat - '0'.toNat ≤ 1 := by
      rcases h.head with rfl | rfl <;> decide
    rw [Nat.ofDigitChars_cons]
    calc Nat.ofDigitChars 2 ds (2 * a + (c.toNat - '0'.toNat))
        < 2 ^ n * (2 * a + (c.toNat - '0'.toNat) + 1) := ih h.tail _
      _ ≤ 2 ^ n * (2 * (a + 1)) := Nat.mul_le_mul_left _ (by omega)
      _ = 2 ^ (n + 1) * (a + 1) := by rw [Nat.pow_succ, Nat.mul_assoc]

end IsBitWord

/-! ## Kets -/

/-- A word between the bars of a ket. -/
def ket (word : List Char) : String := String.ofList ('|' :: word ++ ['⟩'])

theorem append_lt_append_iff {ds es : List Char} (h : ds.length = es.length) (after : List Char) :
    ds ++ after < es ++ after ↔ ds < es := by
  induction ds generalizing es with
  | nil =>
    rw [List.length_eq_zero_iff.1 h.symm]
    simp
  | cons d ds ih =>
    obtain ⟨e, es, rfl⟩ := List.exists_cons_of_length_eq_add_one h.symm
    rw [List.cons_append, List.cons_append, List.cons_lt_cons_iff, List.cons_lt_cons_iff,
      ih (Nat.succ.inj h)]

theorem ket_lt_ket_iff {ds es : List Char} (h : ds.length = es.length) :
    ket ds < ket es ↔ ds < es := by
  unfold ket
  rw [String.lt_iff_toList_lt, String.toList_ofList, String.toList_ofList, List.cons_append,
    List.cons_append, List.cons_lt_cons_self, append_lt_append_iff h]

/-! ## Padded digits -/

theorem mem_toDigits_two {n : Nat} {c : Char} (h : c ∈ Nat.toDigits 2 n) : c = '0' ∨ c = '1' := by
  induction n using Nat.strongRecOn with
  | _ n ih =>
    have hbit : ∀ m < 2, m.digitChar = '0' ∨ m.digitChar = '1' := by decide
    rw [Nat.toDigits_eq_if (by decide)] at h
    split at h
    · next hn =>
      rw [List.mem_singleton.1 h]
      exact hbit n hn
    · next hn =>
      rcases List.mem_append.1 h with h | h
      · exact ih (n / 2) (by omega) h
      · rw [List.mem_singleton.1 h]
        exact hbit (n % 2) (Nat.mod_lt _ (by decide))

namespace Distribution

variable {n k : Nat}

theorem isBitWord_binaryDigits (hn : 0 < n) (hk : k < 2 ^ n) : IsBitWord n (binaryDigits n k) := by
  have hlen : (Nat.toDigits 2 k).length ≤ n := (Nat.length_toDigits_le_iff (by decide) hn).2 hk
  unfold binaryDigits
  refine ⟨?_, fun c hc => ?_⟩
  · rw [List.length_append, List.length_replicate]
    omega
  · rcases List.mem_append.1 hc with hc | hc
    · exact .inl (List.eq_of_mem_replicate hc)
    · exact mem_toDigits_two hc

theorem ofDigitChars_binaryDigits (n k : Nat) : Nat.ofDigitChars 2 (binaryDigits n k) 0 = k := by
  unfold binaryDigits
  rw [Nat.ofDigitChars_append, Nat.ofDigitChars_replicate_zero, Nat.mul_zero,
    Nat.ofDigitChars_toDigits (by decide) (by decide)]

/-- The digits of a word's number, padded to its length, are the word. -/
theorem binaryDigits_ofDigitChars {word : List Char} (hn : 0 < n) (h : IsBitWord n word) :
    binaryDigits n (Nat.ofDigitChars 2 word 0) = word := by
  have hlt : Nat.ofDigitChars 2 word 0 < 2 ^ n := by simpa using h.ofDigitChars_lt 0
  exact (isBitWord_binaryDigits hn hlt).eq_of_ofDigitChars_eq h (ofDigitChars_binaryDigits ..)

theorem binaryDigits_lt {i j : Nat} (hn : 0 < n) (hij : i < j) (hj : j < 2 ^ n) :
    binaryDigits n i < binaryDigits n j := by
  rw [(isBitWord_binaryDigits hn (hij.trans hj)).lt_iff (isBitWord_binaryDigits hn hj),
    ofDigitChars_binaryDigits, ofDigitChars_binaryDigits]
  exact hij

/-! ## Labels -/

variable {ps : List Binary64} {d : Distribution}

theorem label_eq_ket (d : Distribution) (k : Nat) :
    d.label k = ket (binaryDigits d.numQubits k) := rfl

theorem getElem?_labeled (d : Distribution) (k : Nat) :
    d.labeled[k]? = d.probabilities[k]?.map fun p => (d.label k, p) := by
  simp [labeled, Function.comp_def]

theorem map_fst_labeled (d : Distribution) :
    d.labeled.map (·.1) = (List.range d.probabilities.length).map d.label := by
  rw [labeled, List.map_map, List.range_eq_range', ← List.zipIdx_map_snd 0 d.probabilities,
    List.map_map]
  rfl

/-- **The labels of an accepted list are the kets of all words in increasing order.**  Of the `2 ^ n`
pairs the one at place `k` has the probability at that place and a ket around the `n` digits that
write `k`; the kets are pairwise distinct, there is one for every word, and they increase. -/
theorem labeled_of_accepted {n : Nat} (hpos : 1 ≤ n) (hsmall : n < 64)
    (h : ofProbabilities ps n = .ok d) :
    d.labeled.length = 2 ^ n ∧
    (∀ k < 2 ^ n, ∃ p word, ps[k]? = some p ∧ IsBitWord n word ∧
      Nat.ofDigitChars 2 word 0 = k ∧ d.labeled[k]? = some (ket word, p)) ∧
    (d.labeled.map (·.1)).Nodup ∧
    (∀ word, IsBitWord n word → ket word ∈ d.labeled.map (·.1)) ∧
    (d.labeled.map (·.1)).Pairwise (· < ·) := by
  have hmod : n % UInt32.size = n := Nat.mod_eq_of_lt (hsmall.trans (by decide))
  obtain ⟨hlen, hcount⟩ := numQubits_of_accepted h
  obtain ⟨rfl, -, -, -⟩ := ofProbabilities_eq_ok_iff.1 h
  rw [hmod] at hlen hcount
  have hlabel (k : Nat) : (⟨ps⟩ : Distribution).label k = ket (binaryDigits n k) := by
    rw [label_eq_ket, hcount]
  have hlabels : (⟨ps⟩ : Distribution).labeled.map (·.1) =
      (List.range (2 ^ n)).map fun k => ket (binaryDigits n k) := by
    rw [map_fst_labeled, hlen, funext hlabel]
  have hincreasing : ((⟨ps⟩ : Distribution).labeled.map (·.1)).Pairwise (· < ·) := by
    rw [hlabels, List.pairwise_map]
    refine List.pairwise_lt_range.imp_of_mem fun hi hj hij => ?_
    have hi := List.mem_range.1 hi
    have hj := List.mem_range.1 hj
    rw [ket_lt_ket_iff ((isBitWord_binaryDigits hpos hi).length_eq.trans
      (isBitWord_binaryDigits hpos hj).length_eq.symm)]
    exact binaryDigits_lt hpos hij hj
  refine ⟨?length, ?places, hincreasing.imp ne_of_lt, ?words, hincreasing⟩
  case length =>
    rw [← List.length_map (·.1), hlabels, List.length_map, List.length_range]
  case places =>
    intro k hk
    have hp := List.getElem?_eq_getElem (hlen ▸ hk : k < ps.length)
    refine ⟨_, binaryDigits n k, hp, isBitWord_binaryDigits hpos hk, ofDigitChars_binaryDigits n k,
      ?_⟩
    rw [getElem?_labeled, hp, Option.map_some, hlabel]
  case words =>
    intro word hword
    have hlt : Nat.ofDigitChars 2 word 0 < 2 ^ n := by simpa using hword.ofDigitChars_lt 0
    rw [hlabels]
    refine List.mem_map.2 ⟨_, List.mem_range.2 hlt, ?_⟩
    rw [binaryDigits_ofDigitChars hpos hword]

/-- Without qubits there is one state, and its label has a digit all the same. -/
example : (⟨[.ofInt 1]⟩ : Distribution).labeled.map (·.1) = [ket ['0']] := by cbv

/-- The probabilities of a Bell pair. -/
def bellPair : List Binary64 :=
  [⟨0x3fe0000000000000⟩, .zero, .zero, ⟨0x3fe0000000000000⟩]

/-- The third state is the one whose first qubit alone is set, and both may be set. -/
theorem labeled_bellPair :
    1 ≤ 2 ∧ 2 < 64 ∧ ofProbabilities bellPair 2 = .ok ⟨bellPair⟩ ∧
    (⟨bellPair⟩ : Distribution).labeled[2]? = some ("|10⟩", .zero) ∧
    "|11⟩" ∈ (⟨bellPair⟩ : Distribution).labeled.map (·.1) := by
  have haccepted : ofProbabilities bellPair 2 = .ok ⟨bellPair⟩ :=
    ofProbabilities_eq_ok_iff.2 ⟨rfl, by decide, by decide +kernel⟩
  have hten : IsBitWord 2 ['1', '0'] := ⟨rfl, by simp⟩
  have heleven : IsBitWord 2 ['1', '1'] := ⟨rfl, by simp⟩
  obtain ⟨-, hplaces, -, hwords, -⟩ := labeled_of_accepted (by decide) (by decide) haccepted
  obtain ⟨p, word, hp, hword, hvalue, hlabeled⟩ := hplaces 2 (by decide)
  obtain rfl := hword.eq_of_ofDigitChars_eq hten hvalue
  obtain rfl := Option.some.inj hp
  exact ⟨by decide, by decide, haccepted, hlabeled, hwords _ heleven⟩

end Distribution

end QuantumWiring
