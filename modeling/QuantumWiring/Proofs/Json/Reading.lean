import QuantumWiring.Proofs.Binary64.Bounds
import QuantumWiring.Proofs.Json.Finite

/-!
# Numbers of texts are finite

A numeral is first an integer of 64 bits, and a power of ten scales it up only as far as the finite
numbers go, or down.  So no numeral stands for an infinity (`Numeral.isFinite_of_value?`), whatever
tokens a text is cut into hold only finite numbers, and reading one token after the other keeps the
open containers that way (`isFinite_step?`).
-/

namespace QuantumWiring.Json

/-! ## Numerals -/

namespace Numeral

theorem takeWhole_lt (digits : List Char) : (takeWhole digits).1 < wordLimit := by
  have hacc : ((0, 0) : Nat × Nat).1 < wordLimit := by decide
  unfold takeWhole
  generalize ((0, 0) : Nat × Nat) = acc at hacc
  induction digits generalizing acc with
  | nil => exact hacc
  | cons c digits ih =>
    refine ih _ ?_
    simp only
    split
    · next h => exact h.2
    · exact hacc

theorem takeFraction_lt {n : Nat} (h : n < wordLimit) (digits : List Char) :
    (takeFraction n digits).1 < wordLimit := by
  induction digits generalizing n with
  | nil => exact h
  | cons c digits ih =>
    unfold takeFraction
    simp only
    split
    · next hm => exact ih hm
    · exact h

/-- A power of ten is more than one also when it has been rounded. -/
theorem ratio_tenTo {k : Nat} (hk : 0 < k) :
    (Binary64.ratio (tenTo k)).2 < (Binary64.ratio (tenTo k)).1 := by
  have hpow : 2 ^ 1 ≤ Nat.pow 10 k :=
    Nat.le_trans (by decide) (Nat.pow_le_pow_right (by decide) hk)
  have hden := Binary64.ratio_den_pos (tenTo k)
  have htwo := Binary64.le_ratio (Binary64.le_nearestNat (by decide) hpow)
  unfold tenTo at hden ⊢
  omega

theorem scaleDown_le {x k j : Nat} (h : x ≤ (j + 1023) * 2 ^ 52) (hk : 0 < k) :
    scaleDown x k ≤ (j + 1023) * 2 ^ 52 := by
  fun_induction scaleDown x k with
  | case1 x k hle => exact Binary64.divMagnitude_le h (ratio_tenTo hk)
  | case2 k hgt => exact Nat.zero_le _
  | case3 x k hgt hx ih =>
    exact ih (Binary64.divMagnitude_le h (ratio_tenTo (by decide))) (by omega)

theorem scale?_lt {x m : Nat} {e : Int} (h : x ≤ (64 + 1023) * 2 ^ 52) (hm : scale? x e = some m) :
    m < Binary64.infiniteMagnitude := by
  unfold scale? at hm
  split at hm
  · next he =>
    obtain rfl := Option.some.inj hm
    exact Nat.lt_of_le_of_lt (scaleDown_le h (by omega)) (by decide)
  · split at hm
    · simp only at hm
      split at hm
      · next hlt =>
        obtain rfl := Option.some.inj hm
        exact hlt
      · cases hm
    · split at hm
      · obtain rfl := Option.some.inj hm
        decide
      · cases hm

theorem magnitude?_lt {n m : Nat} (h : n < wordLimit) {start : Int}
    {exponent : Option (Bool × List Char)} (hm : magnitude? n start exponent = some m) :
    m < Binary64.infiniteMagnitude := by
  have hn := Binary64.nearestNat_le (j := 64) h
  unfold magnitude? at hm
  split at hm
  · exact scale?_lt hn hm
  · simp only at hm
    split at hm
    · split at hm
      · cases hm
      · obtain rfl := Option.some.inj hm
        decide
    · exact scale?_lt hn hm

/-- **A numeral stands for a finite number**, if it has a value. -/
theorem isFinite_of_value? {l : Numeral} {n : Number} (h : l.value? = some n) : n.IsFinite := by
  unfold value? at h
  simp only at h
  split at h
  · next hint =>
    obtain rfl := Option.some.inj h
    exact Binary64.isFinite_ofInt hint.2.2.2
  · split at h
    · next hint =>
      obtain rfl := Option.some.inj h
      refine Binary64.isFinite_ofInt ?_
      have hlimit : wordLimit = 2 ^ 64 := rfl
      omega
    · obtain ⟨m, hm, rfl⟩ := Option.map_eq_some_iff.1 h
      exact Binary64.isFinite_ofMagnitude
        (magnitude?_lt (takeFraction_lt (takeWhole_lt l.whole) l.fraction) hm) l.negative

end Numeral

/-! ## Tokens -/

/-- If the token is a number, the number is finite. -/
def Token.IsFinite : Token → Prop
  | .number (some n) => n.IsFinite
  | _ => True

theorem isFinite_keyword? {cs : List Char} {t : Token} {n : Nat} (h : keyword? cs = some (t, n)) :
    t.IsFinite := by
  unfold keyword? at h
  repeat' split at h
  all_goals cases h
  all_goals trivial

theorem isFinite_token? {cs : List Char} {t : Token} {n : Nat} (h : token? cs = some (t, n)) :
    t.IsFinite := by
  unfold token? at h
  split at h
  case h_7 =>
    obtain ⟨body, -, heq⟩ := Option.map_eq_some_iff.1 h
    obtain ⟨rfl, -⟩ := Prod.mk.inj heq
    trivial
  case h_8 =>
    split at h
    · next l size hl =>
      obtain ⟨rfl, -⟩ := Prod.mk.inj (Option.some.inj h)
      cases hv : l.value? with
      | none => trivial
      | some n => exact Numeral.isFinite_of_value? hv
    · exact isFinite_keyword? h
  all_goals
    obtain ⟨rfl, -⟩ := Prod.mk.inj (Option.some.inj h)
    trivial

theorem isFinite_tokensAfter (skip : Nat) (cs : List Char) :
    ∀ t ∈ tokensAfter skip cs, t.IsFinite := by
  fun_induction tokensAfter skip cs with
  | case1 => simp
  | case2 skip c rest ih => exact ih
  | case3 c rest hspace ih => exact ih
  | case4 c rest hspace hnone =>
    intro t ht
    obtain rfl := List.mem_singleton.1 ht
    trivial
  | case5 c rest hspace t n hsome ih => exact List.forall_mem_cons.2 ⟨isFinite_token? hsome, ih⟩

/-! ## Reading -/

def Frame.IsFinite : Frame → Prop
  | .array items => finiteItems items
  | .object fields _ => finiteFields fields

theorem Frame.IsFinite.add {frame : Frame} (h : frame.IsFinite) {d : Document} (hd : d.IsFinite) :
    (frame.add d).IsFinite := by
  cases frame with
  | array items => exact ⟨hd, h⟩
  | object fields name => exact ⟨hd, h⟩

theorem Frame.IsFinite.document {frame : Frame} (h : frame.IsFinite) : frame.document.IsFinite := by
  cases frame with
  | array items => exact finiteItems_iff.2 fun d hd => finiteItems_iff.1 h d (List.mem_reverse.1 hd)
  | object fields name =>
    exact finiteFields_iff.2 fun p hp => finiteFields_iff.1 h p (List.mem_reverse.1 hp)

theorem isFinite_closeOver {stack : List Frame} (h : ∀ frame ∈ stack, frame.IsFinite) :
    (closeOver stack).IsFinite := by
  have hfold (d : Document) (hd : d.IsFinite) :
      (stack.foldl (fun d frame => (frame.add d).document) d).IsFinite := by
    induction stack generalizing d with
    | nil => exact hd
    | cons frame stack ih =>
      obtain ⟨hframe, hstack⟩ := List.forall_mem_cons.1 h
      exact ih hstack _ (hframe.add hd).document
  exact hfold .fault trivial

/-- What a token has led to: a complete document or containers that are still open. -/
def FiniteOutcome : Document ⊕ (Awaited × List Frame) → Prop
  | .inl d => d.IsFinite
  | .inr (_, stack) => ∀ frame ∈ stack, frame.IsFinite

theorem finiteOutcome_complete {d : Document} (hd : d.IsFinite) {stack : List Frame}
    (h : ∀ frame ∈ stack, frame.IsFinite) :
    FiniteOutcome (match complete d stack with
      | .inl d => .inl d
      | .inr stack => .inr (.separator, stack)) := by
  cases stack with
  | nil => exact hd
  | cons frame stack =>
    obtain ⟨hframe, hstack⟩ := List.forall_mem_cons.1 h
    exact List.forall_mem_cons.2 ⟨hframe.add hd, hstack⟩

theorem finiteOutcome_closeInnermost {stack : List Frame} (h : ∀ frame ∈ stack, frame.IsFinite) :
    FiniteOutcome (closeInnermost stack) := by
  cases stack with
  | nil => trivial
  | cons frame stack =>
    obtain ⟨hframe, hstack⟩ := List.forall_mem_cons.1 h
    exact finiteOutcome_complete hframe.document hstack

theorem Token.IsFinite.leaf {t : Token} (ht : t.IsFinite) {d : Document} (h : t.leaf? = some d) :
    d.IsFinite := by
  cases t with
  | number n =>
    obtain rfl := Option.some.inj h
    cases n with
    | none => trivial
    | some n => exact ht
  | null | bool b | string s =>
    obtain rfl := Option.some.inj h
    trivial
  | openArray | closeArray | openObject | closeObject | comma | colon | fault => cases h

theorem Token.IsFinite.openOrLeaf {t : Token} (ht : t.IsFinite) {stack : List Frame}
    (h : ∀ frame ∈ stack, frame.IsFinite) {r : Document ⊕ (Awaited × List Frame)}
    (hr : openOrLeaf? t stack = some r) : FiniteOutcome r := by
  unfold openOrLeaf? at hr
  split at hr
  · obtain rfl := Option.some.inj hr
    exact List.forall_mem_cons.2 ⟨trivial, h⟩
  · obtain rfl := Option.some.inj hr
    exact List.forall_mem_cons.2 ⟨trivial, h⟩
  · obtain ⟨d, hd, rfl⟩ := Option.map_eq_some_iff.1 hr
    exact finiteOutcome_complete (ht.leaf hd) h

theorem isFinite_nameField {stack : List Frame} (h : ∀ frame ∈ stack, frame.IsFinite)
    (name : Option String) : ∀ frame ∈ nameField name stack, frame.IsFinite := by
  unfold nameField
  split
  · obtain ⟨hframe, hstack⟩ := List.forall_mem_cons.1 h
    exact List.forall_mem_cons.2 ⟨hframe, hstack⟩
  · exact h

/-- A token adds no number but its own to what has been read. -/
theorem Token.IsFinite.step {t : Token} (ht : t.IsFinite) {stack : List Frame}
    (h : ∀ frame ∈ stack, frame.IsFinite) {awaited : Awaited}
    {r : Document ⊕ (Awaited × List Frame)} (hr : step? t stack awaited = some r) :
    FiniteOutcome r := by
  have hclose : FiniteOutcome (closeInnermost stack) := finiteOutcome_closeInnermost h
  cases awaited with
  | value => exact ht.openOrLeaf h hr
  | firstItem =>
    simp only [step?] at hr
    split at hr
    · obtain rfl := Option.some.inj hr
      exact hclose
    · exact ht.openOrLeaf h hr
  | firstName =>
    simp only [step?] at hr
    split at hr
    · obtain rfl := Option.some.inj hr
      exact hclose
    · split at hr
      · obtain rfl := Option.some.inj hr
        exact isFinite_nameField h _
      · cases hr
  | name =>
    simp only [step?] at hr
    split at hr
    · obtain rfl := Option.some.inj hr
      exact isFinite_nameField h _
    · cases hr
  | colon =>
    simp only [step?] at hr
    split at hr
    · obtain rfl := Option.some.inj hr
      exact h
    · cases hr
  | separator =>
    simp only [step?] at hr
    split at hr
    · obtain rfl := Option.some.inj hr
      exact hclose
    · split at hr
      · obtain rfl := Option.some.inj hr
        exact h
      · obtain rfl := Option.some.inj hr
        exact h
      · cases hr

theorem isFinite_readFrom {awaited : Awaited} {stack : List Frame} {ts : List Token}
    (h : ∀ frame ∈ stack, frame.IsFinite) (hts : ∀ t ∈ ts, t.IsFinite) :
    (readFrom awaited stack ts).document.IsFinite := by
  induction ts generalizing awaited stack with
  | nil => exact isFinite_closeOver h
  | cons t ts ih =>
    obtain ⟨ht, hts⟩ := List.forall_mem_cons.1 hts
    unfold readFrom
    split
    · exact isFinite_closeOver h
    · next d hd => exact ht.step h hd
    · next awaited' stack' hstack => exact ih (ht.step h hstack) hts

/-- **What is read from a text has only finite numbers.** -/
theorem isFinite_read (s : String) : (read s).document.IsFinite :=
  isFinite_readFrom (by simp) (isFinite_tokensAfter 0 s.toList)

end QuantumWiring.Json
