import QuantumWiring.Binary64.Rounding
import Mathlib.Tactic.Positivity
import Mathlib.Tactic.Ring

/-!
# Bounds of rounded numbers

`floorLog2` is compared with a power of two by comparing the exact quotient with it
(`floorLog2_lt_iff`).  So a quotient below `2 ^ j` rounds to a magnitude that is at most that of
`2 ^ j` (`nearest_le`), and such a magnitude stands for a value of at most `2 ^ j` (`ratio_le`); the
same holds from below (`le_nearest`, `le_ratio`).
-/

namespace QuantumWiring

namespace Binary64

variable {num den : Nat}

theorem floorLog2_eq (num den : Nat) : floorLog2 num den =
    if den * 2 ^ ((num.log2 : Int) - den.log2).toNat ≤ num * 2 ^ ((den.log2 : Int) - num.log2).toNat
    then (num.log2 : Int) - den.log2 else (num.log2 : Int) - den.log2 - 1 := by
  have hneg : -((num.log2 : Int) - den.log2) = den.log2 - num.log2 := by omega
  unfold floorLog2
  simp only [hneg, Nat.shiftLeft_eq]
  by_cases hk : 0 ≤ (num.log2 : Int) - den.log2
  · have hw : ((den.log2 : Int) - num.log2).toNat = 0 := by omega
    simp only [if_pos hk, hw, pow_zero, mul_one]
  · have hu : ((num.log2 : Int) - den.log2).toNat = 0 := by omega
    simp only [if_neg hk, hu, pow_zero, mul_one]

theorem floorLog2_lt_iff (hnum : 0 < num) (hden : 0 < den) (a b : Nat) :
    floorLog2 num den < (a : Int) - b ↔ num * 2 ^ b < den * 2 ^ a := by
  have hnumLow : 2 ^ num.log2 ≤ num := Nat.log2_self_le (Nat.ne_of_gt hnum)
  have hnumHigh : num < 2 ^ (num.log2 + 1) := Nat.lt_log2_self
  have hdenLow : 2 ^ den.log2 ≤ den := Nat.log2_self_le (Nat.ne_of_gt hden)
  have hdenHigh : den < 2 ^ (den.log2 + 1) := Nat.lt_log2_self
  rw [floorLog2_eq]
  obtain ⟨u, hu⟩ : ∃ u, u = ((num.log2 : Int) - den.log2).toNat := ⟨_, rfl⟩
  obtain ⟨w, hw⟩ : ∃ w, w = ((den.log2 : Int) - num.log2).toNat := ⟨_, rfl⟩
  rw [← hu, ← hw]
  split
  · next hr =>
    constructor
    · intro hlt
      calc num * 2 ^ b < 2 ^ (num.log2 + 1) * 2 ^ b :=
            Nat.mul_lt_mul_of_pos_right hnumHigh (by positivity)
        _ = 2 ^ (num.log2 + 1 + b) := (pow_add ..).symm
        _ ≤ 2 ^ (den.log2 + a) := Nat.pow_le_pow_right (by decide) (by omega)
        _ = 2 ^ den.log2 * 2 ^ a := pow_add ..
        _ ≤ den * 2 ^ a := Nat.mul_le_mul_right _ hdenLow
    · intro hlt
      have hpow : den * 2 ^ (u + b) < den * 2 ^ (a + w) := by
        calc den * 2 ^ (u + b) = den * 2 ^ u * 2 ^ b := by ring
          _ ≤ num * 2 ^ w * 2 ^ b := Nat.mul_le_mul_right _ hr
          _ = num * 2 ^ b * 2 ^ w := by ring
          _ < den * 2 ^ a * 2 ^ w := Nat.mul_lt_mul_of_pos_right hlt (by positivity)
          _ = den * 2 ^ (a + w) := by ring
      have hexp : u + b < a + w :=
        (Nat.pow_lt_pow_iff_right (by decide)).1 (Nat.lt_of_mul_lt_mul_left hpow)
      omega
  · next hr =>
    constructor
    · intro hlt
      have hpow : num * 2 ^ b * 2 ^ w < den * 2 ^ a * 2 ^ w := by
        calc num * 2 ^ b * 2 ^ w = num * 2 ^ w * 2 ^ b := by ring
          _ < den * 2 ^ u * 2 ^ b := Nat.mul_lt_mul_of_pos_right (Nat.not_le.1 hr) (by positivity)
          _ = den * 2 ^ (u + b) := by ring
          _ ≤ den * 2 ^ (a + w) :=
            Nat.mul_le_mul_left _ (Nat.pow_le_pow_right (by decide) (by omega))
          _ = den * 2 ^ a * 2 ^ w := by ring
      exact Nat.lt_of_mul_lt_mul_right hpow
    · intro hlt
      have hpow : 2 ^ (num.log2 + b) < 2 ^ (den.log2 + 1 + a) := by
        calc 2 ^ (num.log2 + b) = 2 ^ num.log2 * 2 ^ b := pow_add ..
          _ ≤ num * 2 ^ b := Nat.mul_le_mul_right _ hnumLow
          _ < den * 2 ^ a := hlt
          _ < 2 ^ (den.log2 + 1) * 2 ^ a := Nat.mul_lt_mul_of_pos_right hdenHigh (by positivity)
          _ = 2 ^ (den.log2 + 1 + a) := (pow_add ..).symm
      have hexp : num.log2 + b < den.log2 + 1 + a := (Nat.pow_lt_pow_iff_right (by decide)).1 hpow
      omega

theorem le_floorLog2_iff (hnum : 0 < num) (hden : 0 < den) (a b : Nat) :
    (a : Int) - b ≤ floorLog2 num den ↔ den * 2 ^ a ≤ num * 2 ^ b := by
  rw [← not_lt, floorLog2_lt_iff hnum hden, not_lt]

theorem roundQuotient_le {n : Nat} (tie : Tie) (h : num < den * n) :
    roundQuotient tie num den ≤ n := by
  have hq : num / den < n := Nat.div_lt_of_lt_mul h
  unfold roundQuotient
  simp only
  split
  · omega
  · split
    · omega
    · cases tie with
      | up => exact hq
      | even =>
        simp only
        split <;> omega

theorem le_roundQuotient {n : Nat} (tie : Tie) (hden : 0 < den) (h : den * n ≤ num) :
    n ≤ roundQuotient tie num den := by
  have hq : n ≤ num / den := (Nat.le_div_iff_mul_le hden).2 (by rwa [mul_comm])
  unfold roundQuotient
  simp only
  split
  · exact hq
  · split
    · omega
    · cases tie with
      | up => exact Nat.le_succ_of_le hq
      | even =>
        simp only
        split <;> omega

/-- The significand of a rounded quotient is the quotient in units of `2 ^ q`, rounded. -/
theorem nearest_eq (hnum : 0 < num) {q : Int} (hq : q = max (floorLog2 num den - 52) (-1074)) :
    nearest num den = min ((q + 1074).toNat * 2 ^ 52 +
      roundQuotient .even (num * 2 ^ (-q).toNat) (den * 2 ^ q.toNat)) infiniteMagnitude := by
  unfold nearest
  rw [if_neg (Nat.ne_of_gt hnum), ← hq]
  simp only [Nat.shiftLeft_eq]
  by_cases hsign : 0 ≤ q
  · have hneg : (-q).toNat = 0 := by omega
    rw [if_pos hsign, hneg, pow_zero, mul_one]
  · have hpos : q.toNat = 0 := by omega
    rw [if_neg hsign, hpos, pow_zero, mul_one]

/-- A quotient below a power of two rounds to the magnitude of that power at most. -/
theorem nearest_le (hden : 0 < den) {j : Nat} (h : num < den * 2 ^ j) :
    nearest num den ≤ (j + 1023) * 2 ^ 52 := by
  by_cases hnum : num = 0
  · simp [nearest, hnum]
  have hpos : 0 < num := Nat.pos_of_ne_zero hnum
  have hlog : floorLog2 num den < j := by
    simpa using (floorLog2_lt_iff hpos hden j 0).2 (by simpa using h)
  obtain ⟨q, hq⟩ : ∃ q, q = max (floorLog2 num den - 52) (-1074) := ⟨_, rfl⟩
  -- the significand has 53 bits, or one more that is a carry
  have hm : roundQuotient .even (num * 2 ^ (-q).toNat) (den * 2 ^ q.toNat) ≤ 2 ^ 53 := by
    refine roundQuotient_le .even ?_
    rw [mul_assoc, ← pow_add]
    refine (floorLog2_lt_iff hpos hden _ _).1 ?_
    omega
  have hexp : (q + 1074).toNat ≤ j + 1021 := by omega
  rw [nearest_eq hpos hq]
  refine (Nat.min_le_left _ _).trans ?_
  calc (q + 1074).toNat * 2 ^ 52 + _ ≤ (j + 1021) * 2 ^ 52 + 2 ^ 53 :=
        Nat.add_le_add (Nat.mul_le_mul_right _ hexp) hm
    _ = (j + 1023) * 2 ^ 52 := by ring

/-- A quotient that reaches a power of two rounds to the magnitude of that power at least. -/
theorem le_nearest (hden : 0 < den) {j : Nat} (hj : j ≤ 1024) (h : den * 2 ^ j ≤ num) :
    (j + 1023) * 2 ^ 52 ≤ nearest num den := by
  have hpos : 0 < num := Nat.lt_of_lt_of_le (by positivity) h
  have hlog : (j : Int) ≤ floorLog2 num den := by
    simpa using (le_floorLog2_iff hpos hden j 0).2 (by simpa using h)
  obtain ⟨q, hq⟩ : ∃ q, q = max (floorLog2 num den - 52) (-1074) := ⟨_, rfl⟩
  have hm : 2 ^ 52 ≤ roundQuotient .even (num * 2 ^ (-q).toNat) (den * 2 ^ q.toNat) := by
    refine le_roundQuotient .even (by positivity) ?_
    rw [mul_assoc, ← pow_add]
    refine (le_floorLog2_iff hpos hden _ _).1 ?_
    omega
  have hexp : j + 1022 ≤ (q + 1074).toNat := by omega
  rw [nearest_eq hpos hq]
  refine Nat.le_min_of_le_of_le ?_ ?_
  · calc (j + 1023) * 2 ^ 52 = (j + 1022) * 2 ^ 52 + 2 ^ 52 := by ring
      _ ≤ _ := Nat.add_le_add (Nat.mul_le_mul_right _ hexp) hm
  · show _ ≤ 2047 * 2 ^ 52
    exact Nat.mul_le_mul_right _ (by omega)

theorem nearestNat_le {n j : Nat} (h : n < 2 ^ j) : nearestNat n ≤ (j + 1023) * 2 ^ 52 :=
  nearest_le Nat.one_pos (by rwa [one_mul])

theorem le_nearestNat {n j : Nat} (hj : j ≤ 1024) (h : 2 ^ j ≤ n) :
    (j + 1023) * 2 ^ 52 ≤ nearestNat n :=
  le_nearest Nat.one_pos hj (by rwa [one_mul])

theorem ratio_eq (x : Nat) :
    ratio x = (significand x * 2 ^ (exponent x).toNat, 2 ^ (-exponent x).toNat) := by
  unfold ratio
  simp only [Nat.shiftLeft_eq, one_mul]
  by_cases hsign : 0 ≤ exponent x
  · have hneg : (-exponent x).toNat = 0 := by omega
    rw [if_pos hsign, hneg, pow_zero]
  · have hpos : (exponent x).toNat = 0 := by omega
    rw [if_neg hsign, hpos, pow_zero, mul_one]

theorem ratio_den_pos (x : Nat) : 0 < (ratio x).2 := by
  rw [ratio_eq]
  exact Nat.two_pow_pos _

theorem significand_lt (x : Nat) : significand x < 2 ^ 53 := by
  unfold significand
  rw [Nat.shiftRight_eq_div_pow, Nat.shiftLeft_eq]
  split <;> omega

theorem exponent_le {x j : Nat} (h : x ≤ (j + 1023) * 2 ^ 52) : exponent x ≤ (j : Int) - 52 := by
  unfold exponent
  rw [Nat.shiftRight_eq_div_pow]
  split <;> omega

/-- A magnitude that is at most the one of a power of two has a value that is at most that power. -/
theorem ratio_le {x j : Nat} (h : x ≤ (j + 1023) * 2 ^ 52) :
    (ratio x).1 ≤ (ratio x).2 * 2 ^ j := by
  have hq := exponent_le h
  -- with the greatest exponent the magnitude is the power itself
  have hm : significand x ≤ 2 ^ (j - exponent x).toNat := by
    by_cases hj : (j - exponent x).toNat = 52
    · have hx : x = (j + 1023) * 2 ^ 52 := by
        unfold exponent at hj
        rw [Nat.shiftRight_eq_div_pow] at hj
        split at hj <;> omega
      have hdiv : x / 2 ^ 52 ≠ 0 := by omega
      have hmod : x % 2 ^ 52 = 0 := by omega
      rw [hj, significand, Nat.shiftRight_eq_div_pow, if_neg hdiv, Nat.shiftLeft_eq, one_mul, hmod]
      exact le_rfl
    · exact (significand_lt x).le.trans (Nat.pow_le_pow_right (by decide) (by omega))
  rw [ratio_eq]
  calc significand x * 2 ^ (exponent x).toNat
      ≤ 2 ^ (j - exponent x).toNat * 2 ^ (exponent x).toNat := Nat.mul_le_mul_right _ hm
    _ = 2 ^ ((j - exponent x).toNat + (exponent x).toNat) := (pow_add ..).symm
    _ = 2 ^ ((-exponent x).toNat + j) := congrArg _ (by omega)
    _ = 2 ^ (-exponent x).toNat * 2 ^ j := pow_add ..

/-- A magnitude that reaches the one of a power of two has a value that reaches that power. -/
theorem le_ratio {x j : Nat} (h : (j + 1023) * 2 ^ 52 ≤ x) :
    (ratio x).2 * 2 ^ j ≤ (ratio x).1 := by
  have hdiv : x / 2 ^ 52 ≠ 0 := by omega
  have hm : 2 ^ 52 ≤ significand x := by
    rw [significand, Nat.shiftRight_eq_div_pow, if_neg hdiv, Nat.shiftLeft_eq, one_mul]
    exact Nat.le_add_right ..
  have hq : (j : Int) - 52 ≤ exponent x := by
    rw [exponent, Nat.shiftRight_eq_div_pow, if_neg hdiv]
    omega
  rw [ratio_eq]
  calc 2 ^ (-exponent x).toNat * 2 ^ j = 2 ^ ((-exponent x).toNat + j) := (pow_add ..).symm
    _ ≤ 2 ^ (52 + (exponent x).toNat) := Nat.pow_le_pow_right (by decide) (by omega)
    _ = 2 ^ 52 * 2 ^ (exponent x).toNat := pow_add ..
    _ ≤ significand x * 2 ^ (exponent x).toNat := Nat.mul_le_mul_right _ hm

/-- Division by more than one leaves a magnitude below any power of two that it was below. -/
theorem divMagnitude_le {x y j : Nat} (h : x ≤ (j + 1023) * 2 ^ 52)
    (hy : (ratio y).2 < (ratio y).1) : divMagnitude x y ≤ (j + 1023) * 2 ^ 52 := by
  have hden := ratio_den_pos x
  refine nearest_le (Nat.mul_pos hden (Nat.zero_lt_of_lt hy)) ?_
  calc (ratio x).1 * (ratio y).2 ≤ (ratio x).2 * 2 ^ j * (ratio y).2 :=
        Nat.mul_le_mul_right _ (ratio_le h)
    _ < (ratio x).2 * 2 ^ j * (ratio y).1 := Nat.mul_lt_mul_of_pos_left hy (by positivity)
    _ = (ratio x).2 * (ratio y).1 * 2 ^ j := by ring

theorem isFinite_ofMagnitude {m : Nat} (h : m < infiniteMagnitude) (negative : Bool) :
    (ofMagnitude negative m).isFinite := by
  have hm : m < 0x7ff * 2 ^ 52 := h
  have hsize : UInt64.size = 2 ^ 64 := rfl
  have hsign : signBit = 2 ^ 63 := rfl
  have hmod : (ofMagnitude negative m).magnitude = m := by
    unfold ofMagnitude magnitude
    cases negative with
    | false =>
      simp only [Bool.false_eq_true, if_false, UInt64.toNat_ofNat', hsign]
      omega
    | true =>
      simp only [if_true, UInt64.toNat_ofNat', hsign]
      omega
  unfold isFinite
  rw [hmod]
  exact decide_eq_true h

/-- The number nearest to an integer of 64 bits is finite. -/
theorem isFinite_ofInt {i : Int} (h : i.natAbs < 2 ^ 64) : (ofInt i).isFinite :=
  isFinite_ofMagnitude (Nat.lt_of_le_of_lt (nearestNat_le h) (by decide)) _

end Binary64

end QuantumWiring
