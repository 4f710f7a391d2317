import QuantumWiring.Text.Decimal
import Mathlib.Data.Nat.Digits.Defs

/-!
# Counts in decimal digits

A typed count is one or more digits, perhaps behind a plus sign, and any number of leading zeros may
stand among them (`readBelow?_eq_some_iff`).  A count that is printed has no leading zero, and its
digits are read as the count again.
-/

namespace QuantumWiring.Text

variable {c : Char} {cs : List Char}

/-- One or more decimal digits that write `n`, perhaps behind a plus sign. -/
def WritesCount (cs : List Char) (n : Nat) : Prop :=
  ∃ digits, (cs = digits ∨ cs = '+' :: digits) ∧ digits ≠ [] ∧ (∀ d ∈ digits, d.isDigit) ∧
    Nat.ofDigitChars 10 digits 0 = n

theorem decimalValue_eq (cs : List Char) : decimalValue cs = Nat.ofDigitChars 10 cs 0 := by
  rw [Nat.ofDigitChars_eq_foldl]
  rfl

theorem readBelow?_eq_some_iff {limit n : Nat} :
    readBelow? limit cs = some n ↔ WritesCount cs n ∧ n < limit := by
  have hread (digits : List Char) : (digits ≠ [] ∧ digits.all Char.isDigit ∧
      decimalValue digits < limit) ∧ decimalValue digits = n ↔
      (digits ≠ [] ∧ (∀ d ∈ digits, d.isDigit) ∧ Nat.ofDigitChars 10 digits 0 = n) ∧ n < limit := by
    rw [decimalValue_eq, List.all_eq_true]
    constructor
    · rintro ⟨⟨hne, hdigits, hlt⟩, rfl⟩
      exact ⟨⟨hne, hdigits, rfl⟩, hlt⟩
    · rintro ⟨⟨hne, hdigits, rfl⟩, hlt⟩
      exact ⟨⟨hne, hdigits, hlt⟩, rfl⟩
  unfold readBelow? WritesCount
  simp only [Option.ite_none_right_eq_some, Option.some.injEq, hread]
  refine and_congr_left fun _ => ?_
  split
  · next rest =>
    constructor
    · exact fun h => ⟨rest, .inr rfl, h⟩
    · rintro ⟨digits, rfl | hplus, h⟩
      · exact absurd (h.2.1 '+' List.mem_cons_self) (by decide)
      · obtain rfl := (List.cons.inj hplus).2
        exact h
  · next hplus =>
    constructor
    · exact fun h => ⟨cs, .inl rfl, h⟩
    · rintro ⟨digits, rfl | rfl, h⟩
      · exact h
      · exact absurd rfl (hplus digits)

/-! ## Printed counts -/

theorem isDigit_of_mem_toDigits {n : Nat} (h : c ∈ Nat.toDigits 10 n) : c.isDigit :=
  Nat.isDigit_of_mem_toDigits (by decide) (by decide) h

theorem decimalValue_toDigits (n : Nat) : decimalValue (Nat.toDigits 10 n) = n := by
  rw [decimalValue_eq]
  exact Nat.ofDigitChars_ten_toDigits

/-- Only zero is printed with a zero in front. -/
theorem eq_zero_of_head?_toDigits {n : Nat} (h : (Nat.toDigits 10 n).head? = some '0') : n = 0 := by
  induction n using Nat.strongRecOn with
  | _ n ih =>
    have hdigit : ∀ d < 10, Nat.digitChar d = '0' → d = 0 := by decide
    rw [Nat.toDigits_eq_if (by decide)] at h
    split at h
    · next hn => exact hdigit n hn (Option.some.inj h)
    · next hn =>
      rw [List.head?_append, Option.or_of_isSome (by simp [Nat.toDigits_ne_nil])] at h
      have := ih (n / 10) (by omega) h
      omega

theorem isDigit_of_mem_toString {n : Nat} (h : c ∈ (toString n).toList) : c.isDigit := by
  have hdigits : (toString n).toList = Nat.toDigits 10 n := Nat.toList_repr
  rw [hdigits] at h
  exact isDigit_of_mem_toDigits h

theorem writesCount_toString (n : Nat) : WritesCount (toString n).toList n := by
  have hdigits : (toString n).toList = Nat.toDigits 10 n := Nat.toList_repr
  rw [hdigits]
  exact ⟨_, .inl rfl, Nat.toDigits_ne_nil, fun d => isDigit_of_mem_toDigits,
    Nat.ofDigitChars_ten_toDigits⟩

end QuantumWiring.Text
