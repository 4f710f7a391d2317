import QuantumWiring.Proofs.Binary64.Bounds
import Mathlib.Data.EReal.Operations

/-!
# The values of numbers

A number that is not a NaN has a value, which is a real number or one of the two infinities.
Magnitudes are counted so that the next one has the next greater value (`finiteValue_succ`); so
they are in the order of their values, and to compare two numbers by their levels is to compare
their values (`le_iff_value_le`).
-/

namespace QuantumWiring

namespace Binary64

/-- The real number that a finite magnitude stands for. -/
noncomputable def finiteValue (m : Nat) : ℝ := significand m * 2 ^ exponent m

/-- The value of a magnitude up to the infinite one. -/
noncomputable def absValue (m : Nat) : EReal :=
  if m < infiniteMagnitude then (finiteValue m : EReal) else ⊤

/-- The value of a number that is not a NaN. -/
noncomputable def value (x : Binary64) : EReal :=
  if x.isNegative then -absValue x.magnitude else absValue x.magnitude

/-! ## Magnitudes -/

/-- With the next magnitude the significand grows by one, or it overflows and the unit doubles. -/
theorem significand_succ (m : Nat) :
    (significand (m + 1) = significand m + 1 ∧ exponent (m + 1) = exponent m) ∨
      (2 * significand (m + 1) = significand m + 1 ∧ exponent (m + 1) = exponent m + 1) := by
  unfold significand exponent
  simp only [Nat.shiftRight_eq_div_pow, Nat.shiftLeft_eq, one_mul]
  by_cases hm : m / 2 ^ 52 = 0 <;> by_cases hnext : (m + 1) / 2 ^ 52 = 0 <;>
    simp only [hm, hnext, if_true, if_false, and_self, true_or] <;> omega

/-- The next magnitude stands for one unit in the last place more, also where the unit changes. -/
theorem finiteValue_succ (m : Nat) :
    finiteValue (m + 1) = (significand m + 1) * 2 ^ exponent m := by
  unfold finiteValue
  rcases significand_succ m with ⟨hs, he⟩ | ⟨hs, he⟩
  · rw [hs, he]
    push_cast
    rfl
  · have hcast : (significand m : ℝ) + 1 = 2 * significand (m + 1) := by exact_mod_cast hs.symm
    rw [hcast, he, zpow_add_one₀ (by norm_num)]
    ring

theorem finiteValue_strictMono : StrictMono finiteValue := by
  apply strictMono_nat_of_lt_succ
  intro m
  have hunit : (0 : ℝ) < 2 ^ exponent m := zpow_pos (by norm_num) _
  rw [finiteValue_succ, finiteValue]
  exact mul_lt_mul_of_pos_right (lt_add_one _) hunit

theorem absValue_le_absValue_iff {m n : Nat} (hm : m ≤ infiniteMagnitude)
    (hn : n ≤ infiniteMagnitude) : absValue m ≤ absValue n ↔ m ≤ n := by
  unfold absValue
  by_cases hmfin : m < infiniteMagnitude <;> by_cases hnfin : n < infiniteMagnitude
  · rw [if_pos hmfin, if_pos hnfin, EReal.coe_le_coe_iff, finiteValue_strictMono.le_iff_le]
  · simp only [hmfin, hnfin, if_true, if_false, le_top, true_iff]
    omega
  · simp only [hmfin, hnfin, if_true, if_false, top_le_iff, EReal.coe_ne_top, false_iff]
    omega
  · simp only [hmfin, hnfin, if_false, le_refl, true_iff]
    omega

theorem absValue_zero : absValue 0 = 0 := by
  have hzero : finiteValue 0 = 0 := by simp [finiteValue, significand]
  rw [absValue, if_pos (by decide), hzero, EReal.coe_zero]

theorem absValue_nonneg {m : Nat} (hm : m ≤ infiniteMagnitude) : 0 ≤ absValue m := by
  rw [← absValue_zero, absValue_le_absValue_iff (Nat.zero_le _) hm]
  exact Nat.zero_le m

theorem absValue_le_zero_iff {m : Nat} (hm : m ≤ infiniteMagnitude) : absValue m ≤ 0 ↔ m = 0 := by
  rw [← absValue_zero, absValue_le_absValue_iff hm (Nat.zero_le _), Nat.le_zero]

/-! ## Signs -/

variable {x y : Binary64}

theorem magnitude_le_of_isNaN (h : x.isNaN = false) : x.magnitude ≤ infiniteMagnitude := by
  simpa [isNaN] using h

/-- **To compare numbers is to compare their values.** -/
theorem le_iff_value_le (hx : x.isNaN = false) (hy : y.isNaN = false) :
    x.le y ↔ x.value ≤ y.value := by
  have hxm := magnitude_le_of_isNaN hx
  have hym := magnitude_le_of_isNaN hy
  have hle : x.le y ↔ x.level ≤ y.level := by simp [le, hx, hy]
  rw [hle]
  unfold level value
  cases x.isNegative <;> cases y.isNegative <;>
    simp only [Bool.false_eq_true, if_false, if_true]
  case false.false =>
    rw [absValue_le_absValue_iff hxm hym]
    omega
  case true.true =>
    rw [EReal.neg_le_neg_iff, absValue_le_absValue_iff hym hxm]
    omega
  case true.false =>
    have hvalues : -absValue x.magnitude ≤ absValue y.magnitude :=
      (EReal.neg_le_zero.2 (absValue_nonneg hxm)).trans (absValue_nonneg hym)
    simp only [hvalues, iff_true]
    omega
  case false.true =>
    -- what is at least 0 is at most the other only where both are zeros
    constructor
    · intro hlevel
      have hxzero : x.magnitude = 0 := by omega
      have hyzero : y.magnitude = 0 := by omega
      rw [hxzero, hyzero, absValue_zero, neg_zero]
    · intro hvalues
      have hxzero : x.magnitude = 0 := by
        rw [← absValue_le_zero_iff hxm]
        exact hvalues.trans (EReal.neg_le_zero.2 (absValue_nonneg hym))
      have hyzero : y.magnitude = 0 := by
        rw [← absValue_le_zero_iff hym]
        exact (EReal.le_neg_of_le_neg hvalues).trans (EReal.neg_le_zero.2 (absValue_nonneg hxm))
      omega

end Binary64

end QuantumWiring
