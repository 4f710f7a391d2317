import QuantumWiring.Proofs.Stabilizer.Words

/-!
# The words of any tableau

A tableau need not pass its check, so the phase code, the x bits and the z bits of a row may be
missing, out of range or of different lengths.  A row has a word when all three are there, the code
is that of a phase and the columns hold bits, but only the columns that both bit rows have are
looked at (`generator?_eq_some_iff`).  Hence a question mark stands for every row that cannot be
read at all, while a row whose bit rows differ in length is cut to the shorter one and looks like an
operator on fewer qubits (`generators_anyTableau`, `generators_raggedTableau`).
-/

namespace QuantumWiring

/-! ## Phases and columns -/

theorem Phase.ofCode?_eq_some_iff {c : UInt8} {p : Phase} : ofCode? c = some p ↔ p.code = c := by
  constructor
  · intro h
    unfold ofCode? at h
    repeat' split at h
    all_goals first | (cases h; next hc => exact hc.symm) | cases h
  · rintro rfl
    exact ofCode?_code p

theorem Phase.exists_code_iff {c : UInt8} : (∃ p : Phase, p.code = c) ↔ c ≤ 3 := by
  constructor
  · rintro ⟨p, rfl⟩
    cases p <;> decide
  · intro h
    exact Tableau.exists_phase (UInt8.not_lt.2 h)

theorem Pauli.ofBits?_eq_some_iff {x z : UInt8} {p : Pauli} :
    ofBits? x z = some p ↔ p.bits = (x, z) := by
  constructor
  · intro h
    unfold ofBits? at h
    repeat' split at h
    all_goals first | (cases h; next hb => rw [hb.1, hb.2]; rfl) | cases h
  · intro h
    obtain ⟨rfl, rfl⟩ := Prod.mk.inj h
    exact ofBits?_bits p

theorem Pauli.exists_isLetter_iff {b : UInt8 × UInt8} :
    (∃ c, IsLetter c b) ↔ b.1 ≤ 1 ∧ b.2 ≤ 1 := by
  constructor
  · rintro ⟨c, h⟩
    cases h <;> decide
  · rintro ⟨hx, hz⟩
    obtain ⟨p, hpx, hpz⟩ := Tableau.exists_pauli (decide_eq_true hx) (decide_eq_true hz)
    exact ⟨p.letter, isLetter_iff.2 ⟨p, rfl, Prod.ext hpx hpz⟩⟩

namespace Tableau

variable {xs zs : List UInt8} {letters : List Char} {t : Tableau} {row : Nat} {word : String}

/-- The letters of two bit rows are those of the columns that both have. -/
theorem letters?_eq_some_iff :
    letters? xs zs = some letters ↔ List.Forall₂ IsLetter letters (xs.zip zs) := by
  induction xs generalizing zs letters with
  | nil => simp [letters?, eq_comm]
  | cons x xs ih =>
    cases zs with
    | nil => simp [letters?, eq_comm]
    | cons z zs =>
      rw [List.zip_cons_cons, List.forall₂_cons_right_iff, letters?]
      constructor
      · intro h
        split at h
        · cases h
        · next p hp =>
          obtain ⟨cs, hcs, rfl⟩ := Option.map_eq_some_iff.1 h
          have hc : IsLetter p.letter (x, z) :=
            Pauli.isLetter_iff.2 ⟨p, rfl, Pauli.ofBits?_eq_some_iff.1 hp⟩
          exact ⟨p.letter, cs, hc, ih.1 hcs, rfl⟩
      · rintro ⟨c, cs, hc, hcs, rfl⟩
        obtain ⟨p, rfl, hp⟩ := Pauli.isLetter_iff.1 hc
        rw [Pauli.ofBits?_eq_some_iff.2 hp]
        exact Option.map_eq_some_iff.2 ⟨cs, ih.2 hcs, rfl⟩

theorem exists_letters_iff {bs : List (UInt8 × UInt8)} :
    (∃ letters, List.Forall₂ IsLetter letters bs) ↔ ∀ b ∈ bs, b.1 ≤ 1 ∧ b.2 ≤ 1 := by
  induction bs with
  | nil => simp
  | cons b bs ih =>
    rw [List.forall_mem_cons, ← ih, ← Pauli.exists_isLetter_iff]
    constructor
    · rintro ⟨_, h⟩
      obtain ⟨c, cs, hc, hcs, -⟩ := List.forall₂_cons_right_iff.1 h
      exact ⟨⟨c, hc⟩, cs, hcs⟩
    · rintro ⟨⟨c, hc⟩, cs, hcs⟩
      exact ⟨c :: cs, .cons hc hcs⟩

/-! ## Rows of any tableau -/

/-- The tableau has a row with this phase code, these x bits and these z bits. -/
structure HasRow (t : Tableau) (row : Nat) (code : UInt8) (xs zs : List UInt8) : Prop where
  code : t.r[row]? = some code
  x : t.x[row]? = some xs
  z : t.z[row]? = some zs

/-- A row that means an operator: a phase code in range, and as many x bits as z bits. -/
def IsGenuine (t : Tableau) (row : Nat) : Prop :=
  ∃ code xs zs, t.HasRow row code xs zs ∧ code ≤ 3 ∧ xs.length = zs.length ∧
    (∀ b ∈ xs, b ≤ 1) ∧ ∀ b ∈ zs, b ≤ 1

theorem HasRow.eq {code code' : UInt8} {xs' zs' : List UInt8} (h : t.HasRow row code xs zs)
    (h' : t.HasRow row code' xs' zs') : code = code' ∧ xs = xs' ∧ zs = zs' :=
  ⟨Option.some.inj (h.code.symm.trans h'.code), Option.some.inj (h.x.symm.trans h'.x),
    Option.some.inj (h.z.symm.trans h'.z)⟩

/-- **A row's word is its sign and the letters of the columns that both bit rows have.** -/
theorem generator?_eq_some_iff : t.generator? row = some word ↔
    ∃ (p : Phase) (xs zs : List UInt8) (letters : List Char), t.HasRow row p.code xs zs ∧
      List.Forall₂ IsLetter letters (xs.zip zs) ∧ String.ofList (p.sign ++ letters) = word := by
  unfold generator?
  constructor
  · intro h
    split at h
    · next p xs zs hp hx hz =>
      obtain ⟨code, hcode, hp⟩ := Option.bind_eq_some_iff.1 hp
      obtain rfl := Phase.ofCode?_eq_some_iff.1 hp
      obtain ⟨letters, hletters, hword⟩ := Option.map_eq_some_iff.1 h
      exact ⟨p, xs, zs, letters, ⟨hcode, hx, hz⟩, letters?_eq_some_iff.1 hletters, hword⟩
    · cases h
  · rintro ⟨p, xs, zs, letters, hrow, hletters, hword⟩
    rw [hrow.code, hrow.x, hrow.z, Option.bind_some, Phase.ofCode?_code]
    exact Option.map_eq_some_iff.2 ⟨letters, letters?_eq_some_iff.2 hletters, hword⟩

/-- A row has a word when its code is in range and the columns that both bit rows have hold bits. -/
theorem exists_generator?_iff : (∃ word, t.generator? row = some word) ↔
    ∃ code xs zs, t.HasRow row code xs zs ∧ code ≤ 3 ∧ ∀ b ∈ xs.zip zs, b.1 ≤ 1 ∧ b.2 ≤ 1 := by
  constructor
  · rintro ⟨word, h⟩
    obtain ⟨p, xs, zs, letters, hrow, hletters, -⟩ := generator?_eq_some_iff.1 h
    exact ⟨p.code, xs, zs, hrow, Phase.exists_code_iff.1 ⟨p, rfl⟩,
      exists_letters_iff.1 ⟨letters, hletters⟩⟩
  · rintro ⟨code, xs, zs, hrow, hcode, hbits⟩
    obtain ⟨p, rfl⟩ := Phase.exists_code_iff.2 hcode
    obtain ⟨letters, hletters⟩ := exists_letters_iff.2 hbits
    exact ⟨_, generator?_eq_some_iff.2 ⟨p, xs, zs, letters, hrow, hletters, rfl⟩⟩

theorem ne_questionMark_of_generator? (h : t.generator? row = some word) : word ≠ "?" := by
  rintro rfl
  obtain ⟨p, -, -, letters, -, -, hword⟩ := generator?_eq_some_iff.1 h
  have hmark : p.sign ++ letters = ['?'] := by
    rw [← String.toList_ofList (l := p.sign ++ letters), hword]
    rfl
  cases p <;> simp [Phase.sign] at hmark

theorem getElem?_generators (hrow : row < t.height) :
    t.generators[row]? = some ((t.generator? row).getD "?") := by
  unfold generators
  rw [List.getElem?_map, List.getElem?_range hrow]
  rfl

theorem forall_mem_zip_iff (hlen : xs.length = zs.length) :
    (∀ b ∈ xs.zip zs, b.1 ≤ 1 ∧ b.2 ≤ 1) ↔ (∀ b ∈ xs, b ≤ 1) ∧ ∀ b ∈ zs, b ≤ 1 := by
  constructor
  · intro h
    constructor
    · intro b hb
      rw [← List.map_fst_zip (Nat.le_of_eq hlen)] at hb
      obtain ⟨c, hc, rfl⟩ := List.mem_map.1 hb
      exact (h c hc).1
    · intro b hb
      rw [← List.map_snd_zip (Nat.le_of_eq hlen.symm)] at hb
      obtain ⟨c, hc, rfl⟩ := List.mem_map.1 hb
      exact (h c hc).2
  · rintro ⟨hx, hz⟩ b hb
    exact ⟨hx _ (List.of_mem_zip hb).1, hz _ (List.of_mem_zip hb).2⟩

/-- A row means an operator when it has a word and its bit rows are of one length. -/
theorem isGenuine_iff : t.IsGenuine row ↔ (∃ word, t.generator? row = some word) ∧
    ∀ code xs zs, t.HasRow row code xs zs → xs.length = zs.length := by
  rw [exists_generator?_iff]
  constructor
  · rintro ⟨code, xs, zs, hrow, hcode, hlen, hbits⟩
    refine ⟨⟨code, xs, zs, hrow, hcode, (forall_mem_zip_iff hlen).2 hbits⟩, ?_⟩
    rintro code' xs' zs' hrow'
    obtain ⟨-, rfl, rfl⟩ := hrow.eq hrow'
    exact hlen
  · rintro ⟨⟨code, xs, zs, hrow, hcode, hbits⟩, hlen⟩
    have hlen := hlen code xs zs hrow
    exact ⟨code, xs, zs, hrow, hcode, hlen, (forall_mem_zip_iff hlen).1 hbits⟩

/-- **Every row of every tableau is shown as its word or as a question mark.**  The word is the sign
of its phase with one letter for each column that both bit rows have, and these columns alone decide
whether there is a word; so the rows that mean an operator are those which have a word and as many
x bits as z bits, with one letter for each of them. -/
theorem generators_anyTableau (t : Tableau) (row : Nat) (hrow : row < t.height) :
    (∀ word, t.generator? row = some word ↔
      ∃ (p : Phase) (xs zs : List UInt8) (letters : List Char), t.HasRow row p.code xs zs ∧
        List.Forall₂ IsLetter letters (xs.zip zs) ∧ String.ofList (p.sign ++ letters) = word) ∧
    ((∃ word, t.generator? row = some word) ↔ ∃ code xs zs, t.HasRow row code xs zs ∧
      code ≤ 3 ∧ ∀ b ∈ xs.zip zs, b.1 ≤ 1 ∧ b.2 ≤ 1) ∧
    (∀ word, t.generator? row = some word → t.generators[row]? = some word) ∧
    (t.generators[row]? = some "?" ↔ ¬ ∃ word, t.generator? row = some word) ∧
    (t.IsGenuine row ↔ (∃ word, t.generator? row = some word) ∧
      ∀ code xs zs, t.HasRow row code xs zs → xs.length = zs.length) ∧
    (t.IsGenuine row → ∃ (p : Phase) (xs zs : List UInt8) (letters : List Char),
      t.HasRow row p.code xs zs ∧ letters.length = xs.length ∧ letters.length = zs.length ∧
      List.Forall₂ IsLetter letters (xs.zip zs) ∧
      t.generator? row = some (String.ofList (p.sign ++ letters))) := by
  refine ⟨fun word => generator?_eq_some_iff, exists_generator?_iff, ?shown, ?mark, isGenuine_iff,
    ?genuine⟩
  case shown =>
    intro word h
    rw [getElem?_generators hrow, h, Option.getD_some]
  case mark =>
    rw [getElem?_generators hrow]
    cases h : t.generator? row with
    | none => simp
    | some word => simp [ne_questionMark_of_generator? h]
  case genuine =>
    intro h
    obtain ⟨⟨word, hword⟩, hlen⟩ := isGenuine_iff.1 h
    obtain ⟨p, xs, zs, letters, hrow, hletters, rfl⟩ := generator?_eq_some_iff.1 hword
    have hlen := hlen _ _ _ hrow
    have hcount : letters.length = min xs.length zs.length :=
      hletters.length_eq.trans List.length_zip
    exact ⟨p, xs, zs, letters, hrow, by omega, by omega, hletters, hword⟩

/-- A row of an operator, and one whose phase code is out of range. -/
theorem generators_mixedTableau :
    (⟨[[1, 1], [0, 1]], [[0, 1], [0, 0]], [3, 4]⟩ : Tableau).generators[0]? = some "-iXY" ∧
    (⟨[[1, 1], [0, 1]], [[0, 1], [0, 0]], [3, 4]⟩ : Tableau).IsGenuine 0 ∧
    (⟨[[1, 1], [0, 1]], [[0, 1], [0, 0]], [3, 4]⟩ : Tableau).generators[1]? = some "?" := by
  obtain ⟨-, -, hshown, -, hgenuine, -⟩ := generators_anyTableau
    (⟨[[1, 1], [0, 1]], [[0, 1], [0, 0]], [3, 4]⟩ : Tableau) 0 (by decide)
  obtain ⟨-, -, -, hmark, -⟩ := generators_anyTableau
    (⟨[[1, 1], [0, 1]], [[0, 1], [0, 0]], [3, 4]⟩ : Tableau) 1 (by decide)
  refine ⟨hshown _ (by decide), hgenuine.2 ⟨⟨"-iXY", by decide⟩, ?_⟩, hmark.2 ?_⟩
  · rintro code xs zs ⟨-, hx, hz⟩
    obtain rfl := Option.some.inj hx
    obtain rfl := Option.some.inj hz
    rfl
  · rintro ⟨word, hword⟩
    cases hword

/-- The second x bit has no z bit: the row means no operator and yet is shown as one. -/
theorem generators_raggedTableau :
    0 < (⟨[[1, 0]], [[0]], [0]⟩ : Tableau).height ∧
    ¬ (⟨[[1, 0]], [[0]], [0]⟩ : Tableau).IsGenuine 0 ∧
    (⟨[[1, 0]], [[0]], [0]⟩ : Tableau).generator? 0 = some "+X" ∧
    (⟨[[1, 0]], [[0]], [0]⟩ : Tableau).generators[0]? ≠ some "?" := by
  refine ⟨by decide, fun h => ?_, by decide, by decide⟩
  have hlen := (isGenuine_iff.1 h).2 0 [1, 0] [0] ⟨rfl, rfl, rfl⟩
  cases hlen

end Tableau

end QuantumWiring
