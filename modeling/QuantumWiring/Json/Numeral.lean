import QuantumWiring.Json.Value
import QuantumWiring.Text.Decimal

/-!
# Numerals

A numeral is an optional minus sign, digits without a needless leading zero, and optionally a
fraction and an exponent.  Without fraction and exponent it is an integer if it fits 64 bits.
Otherwise its digits are taken as one integer for as long as that stays below `2 ^ 64`; later
digits only count for the place of the point.  The integer is then scaled by a power of ten, in
steps of at most `10 ^ 308`, each step rounded.  A result beyond the finite numbers has no value.
-/

namespace QuantumWiring.Json

/-- The parts of a numeral. -/
structure Numeral where
  negative : Bool
  /-- The digits before the point. -/
  whole : List Char
  /-- The digits behind the point; empty where there is no point. -/
  fraction : List Char
  /-- Whether the exponent is negative, and its digits. -/
  exponent : Option (Bool × List Char)

namespace Numeral

/-- One more than the greatest integer of 64 bits. -/
def wordLimit : Nat := UInt64.size

/-- The leading digits that fit 64 bits together, and how many digits before the point are left
out. -/
def takeWhole (digits : List Char) : Nat × Nat :=
  digits.foldl
    (fun (n, dropped) c =>
      let m := 10 * n + Text.digitValue c
      if dropped = 0 ∧ m < wordLimit then (m, 0) else (n, dropped + 1))
    (0, 0)

/-- The digits behind the point that still fit, after the integer `n`, and how many they are. -/
def takeFraction (n : Nat) : List Char → Nat × Nat
  | [] => (n, 0)
  | c :: rest =>
    let m := 10 * n + Text.digitValue c
    if m < wordLimit then
      let (k, taken) := takeFraction m rest
      (k, taken + 1)
    else (n, 0)

/-- A power of ten as a magnitude. -/
def tenTo (k : Nat) : Nat := Binary64.nearestNat (Nat.pow 10 k)

/-- A finite magnitude times ten to a negative power. -/
def scaleDown (x : Nat) (k : Nat) : Nat :=
  if h : k ≤ 308 then Binary64.divMagnitude x (tenTo k)
  else if x = 0 then 0
  else
    scaleDown (Binary64.divMagnitude x (tenTo 308)) (k - 308)
termination_by k
decreasing_by omega

/-- A finite magnitude times a power of ten, unless it is too large. -/
def scale? (x : Nat) (e : Int) : Option Nat :=
  if e < 0 then some (scaleDown x e.natAbs)
  else if e ≤ 308 then
    let y := Binary64.mulMagnitude x (tenTo e.toNat)
    if y < Binary64.infiniteMagnitude then some y else none
  else if x = 0 then some 0
  else none

/-- The greatest exponent that is told apart. -/
def exponentLimit : Nat := 1 <<< 31

/-- The magnitude of the integer `n` times ten to `start` plus the written exponent. -/
def magnitude? (n : Nat) (start : Int) : Option (Bool × List Char) → Option Nat
  | none => scale? (Binary64.nearestNat n) start
  | some (down, digits) =>
    let e := Text.decimalValue digits
    if exponentLimit ≤ e then
      if n ≠ 0 ∧ down = false then none else some 0
    else
      let total := if down then start - e else start + e
      scale? (Binary64.nearestNat n) (max (-(exponentLimit : Int)) (min total (exponentLimit - 1)))

/-- The number that a numeral stands for, unless it is too large. -/
def value? (l : Numeral) : Option Number :=
  let n := Text.decimalValue l.whole
  if l.fraction = [] ∧ l.exponent = none ∧ l.negative = false ∧ n < wordLimit then
    some (.integer n)
  else if l.fraction = [] ∧ l.exponent = none ∧ l.negative ∧ 0 < n ∧ n ≤ wordLimit / 2 then
    some (.integer (-n))
  else
    let (n, dropped) := takeWhole l.whole
    let (n, taken) := takeFraction n l.fraction
    (magnitude? n ((dropped : Int) - taken) l.exponent).map fun m =>
      .real (Binary64.ofMagnitude l.negative m)

end Numeral

/-- The sign at the head of a text, and how many characters it takes. -/
def leadingSign : List Char → Bool × Nat
  | '-' :: _ => (true, 1)
  | _ => (false, 0)

/-- The fraction at the head of a text, empty if there is none, and how many characters it takes;
none if a point stands there without digits. -/
def leadingFraction? : List Char → Option (List Char × Nat)
  | '.' :: rest =>
    let digits := rest.takeWhile Char.isDigit
    if digits = [] then none else some (digits, digits.length + 1)
  | _ => some ([], 0)

/-- The sign of an exponent and how many characters it takes. -/
def exponentSign : List Char → Bool × Nat
  | '-' :: _ => (true, 1)
  | '+' :: _ => (false, 1)
  | _ => (false, 0)

/-- The exponent at the head of a text, if there is one, and how many characters it takes; none
if its mark stands there without digits. -/
def leadingExponent? (cs : List Char) : Option (Option (Bool × List Char) × Nat) :=
  if cs.head? = some 'e' ∨ cs.head? = some 'E' then
    let (down, k) := exponentSign (cs.drop 1)
    let digits := (cs.drop (1 + k)).takeWhile Char.isDigit
    if digits = [] then none else some (some (down, digits), 1 + k + digits.length)
  else some (none, 0)

/-- The numeral at the head of a text and how many characters it takes. -/
def numeral? (cs : List Char) : Option (Numeral × Nat) :=
  let (negative, signSize) := leadingSign cs
  let cs := cs.drop signSize
  let whole := cs.takeWhile Char.isDigit
  if whole = [] ∨ (whole.head? = some '0' ∧ whole ≠ ['0']) then none
  else
    let cs := cs.drop whole.length
    match leadingFraction? cs with
    | none => none
    | some (fraction, fractionSize) =>
      match leadingExponent? (cs.drop fractionSize) with
      | none => none
      | some (exponent, exponentSize) =>
        some (⟨negative, whole, fraction, exponent⟩,
          signSize + whole.length + fractionSize + exponentSize)

end QuantumWiring.Json
