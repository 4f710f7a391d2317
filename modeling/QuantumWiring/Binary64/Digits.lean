import QuantumWiring.Binary64.Rounding

/-!
# Decimal digits of a number

`shortest` finds the fewest decimal digits that read back as the same number, and of those the
nearest.  All reals between the two midpoints around a number round to it, the midpoints
themselves exactly when its significand is even.  On the grid of multiples of a power of ten only
the two neighbours of the number matter; the coarsest grid with one of them inside the interval
gives the digits.  Three written forms use them: `scientific` with an exponent for very large
and very small numbers, `positional` without any, and `fixed` with a given number of places.
-/

namespace QuantumWiring.Binary64

/-- A positive decimal number, `coefficient * 10 ^ exponent`. -/
structure Digits where
  coefficient : Nat
  exponent : Int
deriving DecidableEq

/-- A value and the interval of reals that round to it, over one denominator. -/
structure Interval where
  low : Nat
  value : Nat
  high : Nat
  denominator : Nat
  /-- Whether the ends belong to the interval. -/
  closed : Bool

/-- The reals that round to a positive finite magnitude. -/
def interval (magnitude : Nat) : Interval :=
  let m := significand magnitude
  let q := exponent magnitude - 2
  let below := if m = 1 <<< 52 ∧ -1074 < exponent magnitude then 1 else 2
  let (unit, den) := if 0 ≤ q then (1 <<< q.toNat, 1) else (1, 1 <<< (-q).toNat)
  ⟨(4 * m - below) * unit, 4 * m * unit, (4 * m + 2) * unit, den, m % 2 = 0⟩

/-- Whether `n / den` lies in the interval `i`, whose ends are over the same denominator. -/
def Interval.holds (i : Interval) (n : Nat) : Bool :=
  if i.closed then i.low ≤ n && n ≤ i.high else i.low < n && n < i.high

/-- The interval in units of `10 ^ e`. -/
def Interval.scale (i : Interval) (e : Int) : Interval :=
  if 0 ≤ e then { i with denominator := i.denominator * Nat.pow 10 e.toNat }
  else
    let f := Nat.pow 10 (-e).toNat
    { i with low := i.low * f, value := i.value * f, high := i.high * f }

/-- The multiple of `10 ^ e` in the interval that is nearest to the value, if there is one. -/
def onGrid? (tie : Tie) (i : Interval) (e : Int) : Option Digits :=
  let i := i.scale e
  let k := i.value / i.denominator
  let lower := i.holds (k * i.denominator)
  let upper := i.holds ((k + 1) * i.denominator)
  if lower && upper then some ⟨roundQuotient tie i.value i.denominator, e⟩
  else if lower then some ⟨k, e⟩
  else if upper then some ⟨k + 1, e⟩
  else none

/-- A power of ten that is above the magnitude. -/
def decimalBound (magnitude : Nat) : Int :=
  ((significand magnitude).log2 + 1 + exponent magnitude) * 30103 / 100000 + 2

/-- The fewest digits that read back as a positive finite magnitude, the nearest of those. -/
def shortest (tie : Tie) (magnitude : Nat) : Digits :=
  let i := interval magnitude
  let top := decimalBound magnitude
  ((List.range 25).findSome? fun (k : Nat) => onGrid? tie i (top - k)).getD ⟨0, 0⟩

/-- The digits of an integer. -/
def digitText (n : Nat) : List Char := Nat.toDigits 10 n

/-- Digits with a point: `places` of them stand behind it. -/
def withPoint (places : Nat) (n : Nat) : List Char × List Char :=
  let ds := digitText n
  let ds := List.replicate (places + 1 - ds.length) '0' ++ ds
  (ds.take (ds.length - places), ds.drop (ds.length - places))

/-- Digits written without exponent, as what stands before and behind the point. -/
def Digits.positional (d : Digits) : List Char × List Char :=
  if 0 ≤ d.exponent then (digitText (d.coefficient * Nat.pow 10 d.exponent.toNat), [])
  else withPoint (-d.exponent).toNat d.coefficient

/-- Digits written with one of them before the point and an exponent that carries its sign. -/
def Digits.exponential (d : Digits) : List Char :=
  let ds := digitText d.coefficient
  let e := d.exponent + (ds.length - 1 : Nat)
  let sign := if 0 ≤ e then '+' else '-'
  let fraction := if ds.length = 1 then [] else '.' :: ds.drop 1
  ds.take 1 ++ fraction ++ 'e' :: sign :: digitText e.natAbs

/-- A minus sign for a set sign bit. -/
def signText (x : Binary64) : List Char := if x.isNegative then ['-'] else []

/-- The form of the interchange documents: a fraction or an exponent is always there, the
exponent from `1e+16` up and below `0.00001`; what is not finite has no such form. -/
def scientific? (x : Binary64) : Option String :=
  if x.magnitude = 0 then some (String.ofList (signText x ++ "0.0".toList))
  else if x.isFinite then
    let d := shortest .even x.magnitude
    let size := (digitText d.coefficient).length + d.exponent
    if -4 ≤ size ∧ size ≤ 16 then
      let (whole, fraction) := d.positional
      let fraction := if fraction = [] then ['0'] else fraction
      some (String.ofList (signText x ++ whole ++ '.' :: fraction))
    else some (String.ofList (signText x ++ d.exponential))
  else none

/-- The form of the messages: never an exponent, and no fraction where the value is whole. -/
def positional (x : Binary64) : String :=
  if x.isNaN then "NaN"
  else if !x.isFinite then String.ofList (signText x ++ "inf".toList)
  else if x.magnitude = 0 then String.ofList (signText x ++ "0".toList)
  else
    let (whole, fraction) := (shortest .up x.magnitude).positional
    let fraction := if fraction = [] then [] else '.' :: fraction
    String.ofList (signText x ++ whole ++ fraction)

/-- The form of the tables: a finite number rounded to `places` decimal places, a tie going to
the even neighbour. -/
def fixed (places : Nat) (x : Binary64) : String :=
  if x.isNaN then "NaN"
  else if !x.isFinite then String.ofList (signText x ++ "inf".toList)
  else
    let (num, den) := ratio x.magnitude
    let (whole, fraction) := withPoint places (roundQuotient .even (num * Nat.pow 10 places) den)
    let fraction := if places = 0 then [] else '.' :: fraction
    String.ofList (signText x ++ whole ++ fraction)

end QuantumWiring.Binary64
