import QuantumWiring.Binary64.Basic

/-!
# Rounding to 64 bits

`nearest` rounds an exact quotient to the nearest magnitude, a tie going to the even one, and
what is too large to infinity.  Arithmetic on finite numbers is exact arithmetic followed by one
such rounding, so nothing here depends on a floating point unit.
-/

namespace QuantumWiring

/-- Where a quotient that lies halfway between two integers goes. -/
inductive Tie where
  | even
  | up
deriving DecidableEq

/-- The integer nearest to `num / den`. -/
def roundQuotient (tie : Tie) (num den : Nat) : Nat :=
  let q := num / den
  let r := num % den
  if 2 * r < den then q
  else if den < 2 * r then q + 1
  else match tie with
    | .up => q + 1
    | .even => if q % 2 = 0 then q else q + 1

namespace Binary64

/-- The integer part of the binary logarithm of `num / den`. -/
def floorLog2 (num den : Nat) : Int :=
  let k : Int := (num.log2 : Int) - den.log2
  let reached := if 0 ≤ k then den <<< k.toNat ≤ num else den ≤ num <<< (-k).toNat
  if reached then k else k - 1

/-- The magnitude nearest to `num / den`, ties to even, with infinity beyond the finite ones. -/
def nearest (num den : Nat) : Nat :=
  if num = 0 then 0
  else
    let q := max (floorLog2 num den - 52) (-1074)
    let m := if 0 ≤ q then roundQuotient .even num (den <<< q.toNat)
      else roundQuotient .even (num <<< (-q).toNat) den
    min (((q + 1074).toNat <<< 52) + m) infiniteMagnitude

/-- The magnitude nearest to an integer. -/
def nearestNat (n : Nat) : Nat := nearest n 1

/-- The number nearest to an integer. -/
def ofInt (i : Int) : Binary64 := ofMagnitude (i < 0) (nearestNat i.natAbs)

/-- The product of two finite magnitudes. -/
def mulMagnitude (a b : Nat) : Nat :=
  let (n, d) := ratio a
  let (n', d') := ratio b
  nearest (n * n') (d * d')

/-- The quotient of two finite magnitudes, the second not zero. -/
def divMagnitude (a b : Nat) : Nat :=
  let (n, d) := ratio a
  let (n', d') := ratio b
  nearest (n * d') (d * n')

/-- The sum of two finite magnitudes. -/
def addMagnitude (a b : Nat) : Nat :=
  let (n, d) := ratio a
  let (n', d') := ratio b
  nearest (n * d' + n' * d) (d * d')

end Binary64

end QuantumWiring
