/-!
# Binary floating point numbers of 64 bits

A `Binary64` is kept as its bits, so that the two zeros and the many not-a-numbers stay apart.
The bits below the sign are the magnitude; among numbers that are not a NaN a greater magnitude
is a greater absolute value.  Three orders are read off it: `rank` is the total order on all bit
patterns, `level` and `Binary64.le` compare as numbers.  `significand` and `exponent` give the
exact value of a finite number, on which `Rounding` computes.
-/

namespace QuantumWiring

/-- A binary floating point number, held as its 64 bits. -/
structure Binary64 where
  bits : UInt64
deriving DecidableEq

namespace Binary64

/-- The sign bit as a number. -/
def signBit : Nat := 1 <<< 63

/-- The magnitude of the infinities; a greater one is a NaN. -/
def infiniteMagnitude : Nat := 0x7ff <<< 52

/-- Whether the sign bit is set. -/
def isNegative (x : Binary64) : Bool := signBit ≤ x.bits.toNat

/-- The bits below the sign. -/
def magnitude (x : Binary64) : Nat := x.bits.toNat % signBit

/-- The number with the given sign and magnitude. -/
def ofMagnitude (negative : Bool) (magnitude : Nat) : Binary64 :=
  ⟨UInt64.ofNat (if negative then signBit + magnitude else magnitude)⟩

def zero : Binary64 := ⟨0⟩

def isNaN (x : Binary64) : Bool := infiniteMagnitude < x.magnitude

def isFinite (x : Binary64) : Bool := x.magnitude < infiniteMagnitude

/-- The place of a bit pattern in the total order: negative patterns first, from the greatest
magnitude down, then the others from the least magnitude up. -/
def rank (x : Binary64) : Int :=
  if x.isNegative then -(x.magnitude : Int) - 1 else x.magnitude

/-- The place of a number that is not a NaN in the order of values; both zeros have level 0. -/
def level (x : Binary64) : Int :=
  if x.isNegative then -(x.magnitude : Int) else x.magnitude

/-- Whether `x` is at most `y` as a number; a NaN is in no such relation. -/
def le (x y : Binary64) : Bool :=
  !x.isNaN && !y.isNaN && x.level ≤ y.level

/-- Whether `x` is below `y` as a number. -/
def lt (x y : Binary64) : Bool :=
  !x.isNaN && !y.isNaN && x.level < y.level

/-- The integer `m` of the value `m * 2 ^ q` of a finite magnitude. -/
def significand (magnitude : Nat) : Nat :=
  if magnitude >>> 52 = 0 then magnitude else (1 <<< 52) + magnitude % (1 <<< 52)

/-- The integer `q` of the value `m * 2 ^ q` of a finite magnitude. -/
def exponent (magnitude : Nat) : Int :=
  if magnitude >>> 52 = 0 then -1074 else (magnitude >>> 52 : Nat) - 1075

/-- The exact value of a finite magnitude as a numerator and a denominator. -/
def ratio (magnitude : Nat) : Nat × Nat :=
  let m := significand magnitude
  let q := exponent magnitude
  if 0 ≤ q then (m <<< q.toNat, 1) else (m, 1 <<< (-q).toNat)

end Binary64

end QuantumWiring
