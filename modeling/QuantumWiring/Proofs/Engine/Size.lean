import QuantumWiring.Proofs.Engine.Refusal
import Mathlib.Algebra.Group.Nat.Defs

/-!
# How many probabilities an answer has to hold

A list of probabilities is accepted for a count of qubits when it has one entry for each of their
basis states and its entries can be probabilities (`ofProbabilities_eq_ok_iff`).  The number of
entries is a power of two, and the count is read back from it (`numQubits_of_accepted`).  But the
count is taken modulo `2 ^ 32` first, so a count from there on can be mistaken for a small one.
Whether a count is respected is decided by that alone (`count_of_accepted`): some list is accepted
for every count that is below 64 modulo `2 ^ 32` (`accepted_certain`).
-/

namespace QuantumWiring

namespace Distribution

variable {ps : List Binary64} {n : Nat} {d : Distribution}

/-- A count of qubits is respected: what is accepted for it has one entry for each of its basis
states and tells the count, and a count from 64 on is refused. -/
def RespectsCount (n : Nat) : Prop :=
  (∀ ps d, ofProbabilities ps n = .ok d → ps.length = 2 ^ n ∧ d.numQubits = n) ∧
    (64 ≤ n → ∀ ps, ofProbabilities ps n = .error (.invalidRequest (.tooManyQubits n)))

/-! ## Accepted lists -/

theorem basisSize?_eq_some_iff {size : Nat} :
    basisSize? n = some size ↔ n % UInt32.size < 64 ∧ size = 2 ^ (n % UInt32.size) := by
  unfold basisSize?
  rw [Nat.one_shiftLeft]
  split
  · next h => simp [h, eq_comm]
  · next h => simp [h]

/-- A list is accepted when it has the right length and every entry can be a probability, with a
sum near enough to 1. -/
theorem ofProbabilities_eq_ok_iff : ofProbabilities ps n = .ok d ↔
    d = ⟨ps⟩ ∧ basisSize? n = some ps.length ∧ (∀ p ∈ ps, isProbability p) ∧
      isNearOne (sum ps) := by
  have hfind : ps.find? (!isProbability ·) = none ↔ ∀ p ∈ ps, isProbability p := by
    simp [List.find?_eq_none]
  rw [← hfind]
  constructor
  · intro h
    unfold ofProbabilities at h
    split at h
    · cases h
    · next size hsize =>
      split at h
      · cases h
      · next hlen =>
        obtain rfl := not_not.1 hlen
        split at h
        · cases h
        · next hnone =>
          split at h
          · next hsum =>
            cases h
            exact ⟨rfl, hsize, hnone, hsum⟩
          · cases h
  · rintro ⟨rfl, hsize, hnone, hsum⟩
    unfold ofProbabilities
    simp [hsize, hnone, hsum]

theorem refused_iff : ofProbabilities ps n = .error (.invalidRequest (.tooManyQubits n)) ↔
    64 ≤ n % UInt32.size := by
  constructor
  · intro h
    exact (ofProbabilities_refused_iff ps).1 ⟨_, h⟩
  · intro h
    unfold ofProbabilities
    rw [basisSize?_eq_none_iff.2 h]

/-! ## The count read back -/

theorem trailingZeros_two_pow (k : Nat) : trailingZeros (2 ^ k) = k := by
  induction k with
  | zero =>
    rw [trailingZeros]
    rfl
  | succ k ih =>
    have hpos : 2 ^ (k + 1) ≠ 0 := Nat.ne_of_gt (Nat.two_pow_pos _)
    have heven : 2 ^ (k + 1) % 2 = 0 := by omega
    have hhalf : 2 ^ (k + 1) / 2 = 2 ^ k := by omega
    rw [trailingZeros, dif_neg hpos, if_pos heven]
    show trailingZeros (2 ^ (k + 1) / 2) + 1 = k + 1
    rw [hhalf, ih]

/-- What is accepted tells the count that it was accepted for, modulo `2 ^ 32`. -/
theorem numQubits_of_accepted (h : ofProbabilities ps n = .ok d) :
    ps.length = 2 ^ (n % UInt32.size) ∧ d.numQubits = n % UInt32.size := by
  obtain ⟨rfl, hsize, -, -⟩ := ofProbabilities_eq_ok_iff.1 h
  obtain ⟨-, hlen⟩ := basisSize?_eq_some_iff.1 hsize
  refine ⟨hlen, ?_⟩
  unfold numQubits
  rw [hlen, trailingZeros_two_pow]

/-! ## A list for every count -/

/-- All probability on the first of the basis states of `k` qubits. -/
def certain (k : Nat) : List Binary64 := .ofInt 1 :: List.replicate (2 ^ k - 1) .zero

theorem length_certain (k : Nat) : (certain k).length = 2 ^ k := by
  have hpos : 0 < 2 ^ k := Nat.two_pow_pos k
  rw [certain, List.length_cons, List.length_replicate]
  omega

theorem sum_certain (k : Nat) : sum (certain k) = .ofInt 1 := by
  have hfirst : add (.ofMagnitude true 0) (.ofInt 1) = .ofInt 1 := by decide +kernel
  have hrest : add (.ofInt 1) .zero = .ofInt 1 := by decide +kernel
  unfold sum certain
  rw [List.foldl_cons, hfirst]
  induction 2 ^ k - 1 with
  | zero => rfl
  | succ m ih => rw [List.replicate_succ, List.foldl_cons, hrest, ih]

theorem accepted_certain (h : n % UInt32.size < 64) :
    ofProbabilities (certain (n % UInt32.size)) n = .ok ⟨certain (n % UInt32.size)⟩ := by
  refine ofProbabilities_eq_ok_iff.2 ⟨rfl, ?_, ?_, ?_⟩
  · rw [length_certain]
    exact basisSize?_eq_some_iff.2 ⟨h, rfl⟩
  · intro p hp
    rcases List.mem_cons.1 hp with rfl | hp
    · decide +kernel
    · rw [List.eq_of_mem_replicate hp]
      decide +kernel
  · rw [sum_certain]
    decide +kernel

/-! ## Respected counts -/

theorem respectsCount_iff : RespectsCount n ↔ n < UInt32.size ∨ 64 ≤ n % UInt32.size := by
  constructor
  · rintro ⟨hcount, -⟩
    rcases Nat.lt_or_ge (n % UInt32.size) 64 with hsmall | hgreat
    · obtain ⟨-, hn⟩ := hcount _ _ (accepted_certain hsmall)
      have hmod := (numQubits_of_accepted (accepted_certain hsmall)).2
      rw [hmod] at hn
      exact .inl (hn ▸ Nat.mod_lt _ (by decide))
    · exact .inr hgreat
  · rintro (hn | hgreat)
    · have hmod : n % UInt32.size = n := Nat.mod_eq_of_lt hn
      refine ⟨fun ps d h => ?_, fun h ps => refused_iff.2 (hmod.symm ▸ h)⟩
      have hcount := numQubits_of_accepted h
      rwa [hmod] at hcount
    · refine ⟨fun ps d h => ?_, fun _ ps => refused_iff.2 hgreat⟩
      rw [refused_iff.2 hgreat] at h
      cases h

/-- **The count of qubits is read modulo `2 ^ 32`.**  A list that is accepted has as many entries as
that many qubits have basis states, and it tells that count; some list is accepted exactly when it
is below 64, and otherwise every list is refused.  So the count that is asked for is respected
exactly when it is below `2 ^ 32` or refused. -/
theorem count_of_accepted (n : Nat) :
    (∀ ps d, ofProbabilities ps n = .ok d →
      ps.length = 2 ^ (n % UInt32.size) ∧ d.numQubits = n % UInt32.size) ∧
    ((∃ ps d, ofProbabilities ps n = .ok d) ↔ n % UInt32.size < 64) ∧
    (∀ ps, ofProbabilities ps n = .error (.invalidRequest (.tooManyQubits n)) ↔
      64 ≤ n % UInt32.size) ∧
    (RespectsCount n ↔ n < UInt32.size ∨ 64 ≤ n % UInt32.size) := by
  refine ⟨fun ps d => numQubits_of_accepted, ⟨?_, ?_⟩, fun ps => refused_iff, respectsCount_iff⟩
  · rintro ⟨ps, d, h⟩
    obtain ⟨-, hsize, -, -⟩ := ofProbabilities_eq_ok_iff.1 h
    exact (basisSize?_eq_some_iff.1 hsize).1
  · intro h
    exact ⟨_, _, accepted_certain h⟩

/-- Two basis states of the same probability. -/
def evenPair : List Binary64 := [⟨0x3fe0000000000000⟩, ⟨0x3fe0000000000000⟩]

/-- They are accepted for a single qubit, and for one qubit beside `2 ^ 32` others. -/
theorem count_of_evenPair :
    (ofProbabilities evenPair 1 = .ok ⟨evenPair⟩ ∧ numQubits ⟨evenPair⟩ = 1 % UInt32.size) ∧
    (ofProbabilities evenPair 4294967297 = .ok ⟨evenPair⟩ ∧
      numQubits ⟨evenPair⟩ = 4294967297 % UInt32.size) := by
  have haccepted : (∀ p ∈ evenPair, isProbability p) ∧ isNearOne (sum evenPair) := by
    decide +kernel
  have hone : ofProbabilities evenPair 1 = .ok ⟨evenPair⟩ :=
    ofProbabilities_eq_ok_iff.2 ⟨rfl, by decide, haccepted⟩
  have hwide : ofProbabilities evenPair 4294967297 = .ok ⟨evenPair⟩ :=
    ofProbabilities_eq_ok_iff.2 ⟨rfl, by decide, haccepted⟩
  exact ⟨⟨hone, ((count_of_accepted 1).1 _ _ hone).2⟩, hwide,
    ((count_of_accepted 4294967297).1 _ _ hwide).2⟩

/-- One probability is accepted for `2 ^ 32` qubits, as if there were none. -/
theorem accepted_wrappedCount :
    4294967296 < UInt64.size ∧ 64 ≤ 4294967296 ∧
    ofProbabilities [.ofInt 1] 4294967296 = .ok ⟨[.ofInt 1]⟩ ∧
    numQubits ⟨[.ofInt 1]⟩ = 0 ∧ ¬ RespectsCount 4294967296 := by
  have haccepted : ofProbabilities [.ofInt 1] 4294967296 = .ok ⟨[.ofInt 1]⟩ :=
    ofProbabilities_eq_ok_iff.2 ⟨rfl, by decide, by decide +kernel⟩
  refine ⟨by decide, by decide, haccepted, (numQubits_of_accepted haccepted).2, ?_⟩
  rintro ⟨-, hrefused⟩
  rw [hrefused (by decide)] at haccepted
  cases haccepted

end Distribution

end QuantumWiring
