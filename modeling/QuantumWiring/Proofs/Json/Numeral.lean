import QuantumWiring.Json.Token
import QuantumWiring.Json.Writer
import QuantumWiring.Proofs.Text.Decimal

/-!
# Written numbers are numerals

A number is written as a numeral, with a fraction or an exponent where it is not an integer, and as
null where it is not finite (`Number.text_eq`).  A numeral goes on as long as digits follow it;
that it ends is seen from the comma, the bracket, the line break or the end of the text behind it
(`numeral?_chars`).  What it is read as is another question, since its digits are scaled with
rounding: `Number.Rereads` says that it is the number again, which holds of every count of 64 bits.
-/

namespace QuantumWiring.Json

/-! ## The end of a numeral -/

/-- The characters do not go on with a numeral: a blank, a comma or a closing bracket comes first, or
nothing at all. -/
def Delimits (rest : List Char) : Prop :=
  ∀ c, rest.head? = some c → isSpace c ∨ c ∈ [',', ']', '\x7d']

theorem delimits_nil : Delimits [] := nofun

theorem delimits_cons {c : Char} (h : c ∈ [',', ']', '\x7d']) (rest : List Char) :
    Delimits (c :: rest) := by
  rintro d hd
  obtain rfl := Option.some.inj hd
  exact .inr h

theorem Delimits.ne {rest : List Char} (h : Delimits rest) {c : Char} (hspace : isSpace c = false)
    (hc : c ∉ [',', ']', '\x7d']) : rest.head? ≠ some c := by
  intro heq
  rcases h c heq with hc' | hc'
  · exact absurd hc' (by simp [hspace])
  · exact hc hc'

theorem isSpace_of_isDigit {c : Char} (h : c.isDigit) : isSpace c = false := by
  rw [Bool.eq_false_iff]
  intro hspace
  simp only [isSpace, Bool.or_eq_true, decide_eq_true_eq] at hspace
  obtain ((rfl | rfl) | rfl) | rfl := hspace <;> exact absurd h (by decide)

/-- The characters do not go on with digits. -/
def EndsDigits (rest : List Char) : Prop := ∀ c, rest.head? = some c → c.isDigit = false

theorem Delimits.endsDigits {rest : List Char} (h : Delimits rest) : EndsDigits rest := by
  intro c hc
  rw [Bool.eq_false_iff]
  intro hdigit
  refine h.ne (isSpace_of_isDigit hdigit) ?_ hc
  intro hmem
  simp only [List.mem_cons, List.not_mem_nil, or_false] at hmem
  obtain rfl | rfl | rfl := hmem <;> exact absurd hdigit (by decide)

theorem takeWhile_isDigit {ds rest : List Char} (hds : ∀ c ∈ ds, c.isDigit)
    (hrest : EndsDigits rest) : (ds ++ rest).takeWhile Char.isDigit = ds := by
  rw [List.takeWhile_append_of_pos hds]
  cases rest with
  | nil => rw [List.takeWhile_nil, List.append_nil]
  | cons c rest =>
    rw [List.takeWhile_cons_of_neg (by simp [hrest c rfl]), List.append_nil]

/-! ## Numerals -/

/-- The minus sign of a numeral. -/
def signChars (negative : Bool) : List Char := if negative then ['-'] else []

/-- The point and the digits behind it, if there are any. -/
def fractionChars : List Char → List Char
  | [] => []
  | digits => '.' :: digits

/-- The exponent, which always carries a sign. -/
def exponentChars : Option (Bool × List Char) → List Char
  | none => []
  | some (down, digits) => 'e' :: (if down then '-' else '+') :: digits

/-- Digits that may stand before the point: at least one, and no needless leading zero. -/
structure IsWhole (ds : List Char) : Prop where
  ne_nil : ds ≠ []
  isDigit : ∀ c ∈ ds, c.isDigit
  eq_zero : ds.head? = some '0' → ds = ['0']

namespace Numeral

def chars (l : Numeral) : List Char :=
  signChars l.negative ++ l.whole ++ fractionChars l.fraction ++ exponentChars l.exponent

/-- The parts of the numeral are what they have to be. -/
structure IsSpelled (l : Numeral) : Prop where
  whole : IsWhole l.whole
  fraction : ∀ c ∈ l.fraction, c.isDigit
  exponent : ∀ p ∈ l.exponent, p.2 ≠ [] ∧ ∀ c ∈ p.2, c.isDigit

end Numeral

/-! ## Reading a numeral -/

section

variable {rest : List Char}

theorem leadingExponent?_exponentChars {exponent : Option (Bool × List Char)} (hrest : Delimits rest)
    (h : ∀ p ∈ exponent, p.2 ≠ [] ∧ ∀ c ∈ p.2, c.isDigit) :
    leadingExponent? (exponentChars exponent ++ rest) =
      some (exponent, (exponentChars exponent).length) := by
  cases exponent with
  | none => exact if_neg (not_or.2 ⟨hrest.ne rfl (by decide), hrest.ne rfl (by decide)⟩)
  | some p =>
    obtain ⟨down, digits⟩ := p
    obtain ⟨hnil, hdigits⟩ : digits ≠ [] ∧ ∀ c ∈ digits, c.isDigit := h _ rfl
    have htake : (digits ++ rest).takeWhile Char.isDigit = digits :=
      takeWhile_isDigit hdigits hrest.endsDigits
    cases down <;> simp [exponentChars, leadingExponent?, exponentSign, htake, hnil] <;> omega

/-- Where an exponent may come, neither digits nor a point go on. -/
theorem head?_exponentChars (exponent : Option (Bool × List Char)) (hrest : Delimits rest) :
    EndsDigits (exponentChars exponent ++ rest) ∧
      (exponentChars exponent ++ rest).head? ≠ some '.' := by
  cases exponent with
  | none => exact ⟨hrest.endsDigits, hrest.ne rfl (by decide)⟩
  | some p =>
    refine ⟨fun c hc => ?_, by simp [exponentChars]⟩
    obtain rfl := Option.some.inj hc
    rfl

theorem leadingFraction?_fractionChars {fraction : List Char} (hdigits : ∀ c ∈ fraction, c.isDigit)
    (hends : EndsDigits rest) (hpoint : rest.head? ≠ some '.') :
    leadingFraction? (fractionChars fraction ++ rest) =
      some (fraction, (fractionChars fraction).length) := by
  cases fraction with
  | nil =>
    show leadingFraction? rest = some ([], 0)
    unfold leadingFraction?
    split
    · exact absurd rfl hpoint
    · rfl
  | cons c cs =>
    have htake := takeWhile_isDigit hdigits hends
    rw [List.cons_append] at htake
    simp [fractionChars, leadingFraction?, htake]

theorem endsDigits_fractionChars (fraction : List Char) (hrest : EndsDigits rest) :
    EndsDigits (fractionChars fraction ++ rest) := by
  cases fraction with
  | nil => exact hrest
  | cons c cs =>
    intro d hd
    obtain rfl := Option.some.inj hd
    rfl

theorem leadingSign_signChars (negative : Bool) {c : Char} (h : c.isDigit) (cs : List Char) :
    leadingSign (signChars negative ++ c :: cs) = (negative, (signChars negative).length) := by
  cases negative with
  | true => rfl
  | false =>
    show leadingSign (c :: cs) = (false, 0)
    unfold leadingSign
    split
    · next heq =>
      obtain ⟨rfl, -⟩ := List.cons.inj heq
      exact absurd h (by decide)
    · rfl

/-- **A numeral is read off, whatever follows that does not go on with it.** -/
theorem numeral?_chars {l : Numeral} (h : l.IsSpelled) (hrest : Delimits rest) :
    numeral? (l.chars ++ rest) = some (l, l.chars.length) := by
  obtain ⟨negative, whole, fraction, exponent⟩ := l
  obtain ⟨⟨hwhole, hdigits, hzero⟩, hfraction, hexponent⟩ := h
  dsimp only at hwhole hdigits hzero hfraction hexponent
  obtain ⟨hends, hpoint⟩ := head?_exponentChars exponent hrest
  have hsign : leadingSign (signChars negative ++ (whole ++
      (fractionChars fraction ++ (exponentChars exponent ++ rest)))) =
        (negative, (signChars negative).length) := by
    obtain ⟨c, cs, rfl⟩ := List.exists_cons_of_ne_nil hwhole
    exact leadingSign_signChars negative (hdigits c List.mem_cons_self) _
  have htake := takeWhile_isDigit hdigits (endsDigits_fractionChars fraction hends)
  have hneedless : ¬ (whole = [] ∨ whole.head? = some '0' ∧ whole ≠ ['0']) := by
    rintro (hnil | ⟨hhead, hne⟩)
    · exact hwhole hnil
    · exact hne (hzero hhead)
  unfold numeral? Numeral.chars
  simp only [List.append_assoc, hsign, List.drop_left, htake, if_neg hneedless,
    leadingFraction?_fractionChars hfraction hends hpoint,
    leadingExponent?_exponentChars hrest hexponent, List.length_append, Nat.add_assoc]

/-- A numeral starts with a character that is no blank. -/
theorem Numeral.IsSpelled.exists_cons {l : Numeral} (h : l.IsSpelled) :
    ∃ c cs, l.chars = c :: cs ∧ isSpace c = false := by
  obtain ⟨c, cs, hwhole⟩ := List.exists_cons_of_ne_nil h.whole.ne_nil
  have hc : c.isDigit := h.whole.isDigit c (hwhole ▸ List.mem_cons_self)
  unfold chars
  rw [hwhole]
  cases l.negative with
  | true => exact ⟨'-', _, rfl, rfl⟩
  | false => exact ⟨c, _, rfl, isSpace_of_isDigit hc⟩

/-- Where a numeral stands, it is the token. -/
theorem token?_of_numeral {c : Char} {cs : List Char} {l : Numeral} {n : Nat}
    (h : numeral? (c :: cs) = some (l, n)) : token? (c :: cs) = some (.number l.value?, n) := by
  unfold token?
  split
  case h_8 => rw [h]
  all_goals
    next heq =>
    obtain ⟨rfl, -⟩ := List.cons.inj heq
    exact absurd h (by simp [numeral?, leadingSign])

end

/-! ## Digits of a number -/

theorem isWhole_toDigits (n : Nat) : IsWhole (Nat.toDigits 10 n) where
  ne_nil := Nat.toDigits_ne_nil
  isDigit _ := Text.isDigit_of_mem_toDigits
  eq_zero h := by
    rw [Text.eq_zero_of_head?_toDigits h]
    rfl

theorem isWhole_zero : IsWhole ['0'] := isWhole_toDigits 0

/-- The leading digits of a whole number can stand before a point. -/
theorem IsWhole.take {ds : List Char} (h : IsWhole ds) {k : Nat} (hk : 0 < k) :
    IsWhole (ds.take k) := by
  obtain ⟨k, rfl⟩ := Nat.exists_eq_add_one_of_ne_zero (Nat.ne_of_gt hk)
  obtain ⟨c, cs, rfl⟩ := List.exists_cons_of_ne_nil h.ne_nil
  refine ⟨by simp, fun d hd => h.isDigit d (List.mem_of_mem_take hd), fun hzero => ?_⟩
  rw [h.eq_zero hzero, List.take_succ_cons, List.take_nil]

end QuantumWiring.Json

namespace QuantumWiring.Binary64

open Json

/-- Zeros are put in front where there are not enough digits for the places behind the point. -/
theorem withPoint_digits (places n : Nat) :
    IsWhole (withPoint places n).1 ∧ ∀ c ∈ (withPoint places n).2, c.isDigit := by
  have hdigits := isWhole_toDigits n
  have hall : ∀ c ∈ List.replicate (places + 1 - (digitText n).length) '0' ++ digitText n,
      c.isDigit := by
    intro c hc
    rcases List.mem_append.1 hc with hzero | hdigit
    · rw [List.eq_of_mem_replicate hzero]
      rfl
    · exact hdigits.isDigit c hdigit
  refine ⟨?_, fun c hc => hall c (List.mem_of_mem_drop hc)⟩
  by_cases hplaces : places < (digitText n).length
  · have hnone : places + 1 - (digitText n).length = 0 := by omega
    simp only [withPoint, hnone, List.replicate_zero, List.nil_append]
    exact hdigits.take (by omega)
  · obtain ⟨k, hk⟩ : ∃ k, places + 1 - (digitText n).length = k + 1 :=
      ⟨places - (digitText n).length, by omega⟩
    have hsize : k + 1 + (digitText n).length - places = 1 := by omega
    simp only [withPoint, hk, List.length_append, List.length_replicate, hsize]
    exact isWhole_zero

theorem positional_digits (d : Digits) :
    IsWhole d.positional.1 ∧ ∀ c ∈ d.positional.2, c.isDigit := by
  unfold Digits.positional
  split
  · exact ⟨isWhole_toDigits _, nofun⟩
  · exact withPoint_digits _ _

/-- Digits without an exponent are a numeral, a zero standing behind the point where nothing else
does. -/
theorem exists_positional (negative : Bool) (d : Digits) :
    ∃ l : Numeral, l.IsSpelled ∧ signChars negative ++ d.positional.1 ++
      '.' :: (if d.positional.2 = [] then ['0'] else d.positional.2) = l.chars := by
  obtain ⟨hwhole, hfraction⟩ := positional_digits d
  have hpoint (digits : List Char) (h : digits ≠ []) : '.' :: digits = fractionChars digits := by
    cases digits with
    | nil => exact absurd rfl h
    | cons c cs => rfl
  split
  · refine ⟨⟨negative, d.positional.1, ['0'], none⟩,
      ⟨hwhole, isWhole_zero.isDigit, nofun⟩, ?_⟩
    simp [Numeral.chars, fractionChars, exponentChars]
  · next hnil =>
    refine ⟨⟨negative, d.positional.1, d.positional.2, none⟩, ⟨hwhole, hfraction, nofun⟩, ?_⟩
    simp [Numeral.chars, exponentChars, hpoint _ hnil]

/-- One digit, the others behind the point, and an exponent are a numeral. -/
theorem exists_exponential (negative : Bool) (d : Digits) :
    ∃ l : Numeral, l.IsSpelled ∧ signChars negative ++ d.exponential = l.chars := by
  have hdigits := isWhole_toDigits d.coefficient
  have hfraction : (if (digitText d.coefficient).length = 1 then []
      else '.' :: (digitText d.coefficient).drop 1) =
        fractionChars ((digitText d.coefficient).drop 1) := by
    obtain ⟨c, cs, hcs⟩ := List.exists_cons_of_ne_nil hdigits.ne_nil
    rw [digitText, hcs]
    cases cs <;> rfl
  unfold Digits.exponential
  dsimp only
  generalize d.exponent + ((digitText d.coefficient).length - 1 : Nat) = e
  have hsign : (if 0 ≤ e then '+' else '-') = if decide (e < 0) then '-' else '+' := by
    by_cases he : 0 ≤ e
    · simp [he]
    · simp [he, Int.not_le.1 he]
  refine ⟨⟨negative, (digitText d.coefficient).take 1, (digitText d.coefficient).drop 1,
    some (decide (e < 0), digitText e.natAbs)⟩, ⟨hdigits.take Nat.one_pos,
      fun c hc => hdigits.isDigit c (List.mem_of_mem_drop hc), ?_⟩, ?_⟩
  · intro p hp
    obtain rfl := Option.some.inj hp
    exact ⟨(isWhole_toDigits _).ne_nil, (isWhole_toDigits _).isDigit⟩
  · rw [hfraction, hsign]
    simp only [Numeral.chars, exponentChars, List.append_assoc]

/-- **A number in the form of the documents is a numeral.** -/
theorem exists_numeral {x : Binary64} {s : String} (h : scientific? x = some s) :
    ∃ l : Numeral, l.IsSpelled ∧ s.toList = l.chars := by
  have hsign : signText x = signChars x.isNegative := rfl
  unfold scientific? at h
  split at h
  · obtain rfl := Option.some.inj h
    refine ⟨⟨x.isNegative, ['0'], ['0'], none⟩,
      ⟨isWhole_zero, isWhole_zero.isDigit, nofun⟩, ?_⟩
    rw [hsign]
    simp [Numeral.chars, fractionChars, exponentChars]
  · split at h
    · dsimp only at h
      split at h
      · obtain rfl := Option.some.inj h
        rw [hsign, String.toList_ofList]
        exact exists_positional _ _
      · obtain rfl := Option.some.inj h
        rw [hsign, String.toList_ofList]
        exact exists_exponential _ _
    · cases h

end QuantumWiring.Binary64

namespace QuantumWiring.Json

/-! ## Numbers -/

/-- The numeral of an integer. -/
def Numeral.ofInt (i : Int) : Numeral := ⟨decide (i < 0), Nat.toDigits 10 i.natAbs, [], none⟩

theorem Numeral.isSpelled_ofInt (i : Int) : (ofInt i).IsSpelled :=
  ⟨isWhole_toDigits _, nofun, nofun⟩

theorem Numeral.chars_ofInt (i : Int) : (toString i).toList = (ofInt i).chars := by
  have hdigits (n : Nat) : (toString n).toList = Nat.toDigits 10 n := Nat.toList_repr
  cases i with
  | ofNat n =>
    refine (hdigits n).trans ?_
    simp [ofInt, chars, signChars, fractionChars, exponentChars]
  | negSucc n =>
    have htext : toString (Int.negSucc n) = "-" ++ toString (n + 1) := rfl
    rw [htext, String.toList_append, hdigits]
    simp [ofInt, chars, signChars, fractionChars, exponentChars]

namespace Number

/-- A number is written as a numeral, or as null if it is not finite. -/
theorem text_eq (n : Number) :
    n.text = "null" ∨ ∃ l : Numeral, l.IsSpelled ∧ n.text.toList = l.chars := by
  cases n with
  | integer i => exact .inr ⟨_, Numeral.isSpelled_ofInt i, Numeral.chars_ofInt i⟩
  | real x =>
    have htext : (real x).text = (Binary64.scientific? x).getD "null" := rfl
    cases h : Binary64.scientific? x with
    | none => exact .inl (by rw [htext, h, Option.getD_none])
    | some s => exact .inr (by rw [htext, h]; exact Binary64.exists_numeral h)

/-- The token that a number is written as. -/
def token (n : Number) : Token :=
  match numeral? n.text.toList with
  | some (l, _) => .number l.value?
  | none => .null

theorem token_eq {n : Number} {l : Numeral} (h : l.IsSpelled) (htext : n.text.toList = l.chars) :
    n.token = .number l.value? := by
  have hnumeral := numeral?_chars h delimits_nil
  rw [List.append_nil, ← htext] at hnumeral
  rw [token, hnumeral]

/-- What the number is written as is read as the number. -/
def Rereads (n : Number) : Prop := (numeral? n.text.toList).bind (·.1.value?) = some n

instance (n : Number) : Decidable n.Rereads := inferInstanceAs (Decidable (_ = _))

theorem Rereads.token_eq {n : Number} (h : n.Rereads) : n.token = .number (some n) := by
  obtain ⟨⟨l, k⟩, hnumeral, hvalue⟩ := Option.bind_eq_some_iff.1 h
  rw [token, hnumeral]
  exact congrArg Token.number hvalue

/-- A count that fits 64 bits is read as it is. -/
theorem rereads_of_lt {n : Nat} (h : n < Numeral.wordLimit) : (integer n).Rereads := by
  have hvalue : (Numeral.ofInt n).value? = some (integer n) := by
    have hdigits : Text.decimalValue (Numeral.ofInt n).whole = n := Text.decimalValue_toDigits n
    have hsign : (Numeral.ofInt n).negative = false :=
      decide_eq_false (Int.not_lt.2 (Int.natCast_nonneg n))
    unfold Numeral.value?
    simp only [hdigits]
    exact if_pos ⟨rfl, rfl, hsign, h⟩
  have hnumeral := numeral?_chars (Numeral.isSpelled_ofInt n) delimits_nil
  rw [List.append_nil, ← Numeral.chars_ofInt] at hnumeral
  exact Option.bind_eq_some_iff.2 ⟨_, hnumeral, hvalue⟩

-- the digits of 15549.412338409005 do not fit 53 bits, and it is read as its neighbour
example : ¬ (real ⟨4669773994164045512⟩).Rereads := by decide +kernel

end Number

end QuantumWiring.Json
