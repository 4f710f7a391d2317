import QuantumWiring.Engine.Fault

/-!
# Basis state probabilities

The circuit endpoint answers with one probability for each basis state.  A `Distribution` is made
only from as many entries as the qubits have basis states, all finite and none negative, with a
sum within one millionth of 1.  The entry at place `i` belongs to the basis state whose binary
digits are those of `i`.
-/

namespace QuantumWiring

/-- Probabilities of the basis states. -/
structure Distribution where
  probabilities : List Binary64
deriving DecidableEq

namespace Distribution

def decoder : Json.Decoder Distribution :=
  .record "ProbabilityResult" (.cons ⟨"probabilities", .list .real, .required⟩ .nil)
    fun (probabilities, _) => ⟨probabilities⟩

def toJson (d : Distribution) : Json.Value :=
  .object [("probabilities", .ofList .real d.probabilities)]

/-! ## Checks -/

/-- Whether a number can be a probability. -/
def isProbability (p : Binary64) : Bool := p.isFinite && !p.lt .zero

/-- The sum of two numbers that are not negative, the second finite. -/
def add (a b : Binary64) : Binary64 :=
  if !a.isFinite then a
  else .ofMagnitude (a.isNegative && b.isNegative) (Binary64.addMagnitude a.magnitude b.magnitude)

/-- The sum of probabilities from left to right; nothing sums to negative zero. -/
def sum (ps : List Binary64) : Binary64 := ps.foldl add (.ofMagnitude true 0)

/-- How far a sum may be from 1. -/
def tolerance : Nat := Binary64.nearest 1 1000000

/-- Whether a sum that is not negative is 1 within the tolerance. -/
def isNearOne (s : Binary64) : Bool :=
  let (n, d) := Binary64.ratio s.magnitude
  let (tn, td) := Binary64.ratio tolerance
  s.isFinite && ((n : Int) - d).natAbs * td ≤ tn * d

/-- The number of basis states of `n` qubits.  The count is taken modulo `2 ^ 32`; from 64 on
there is no such number. -/
def basisSize? (n : Nat) : Option Nat :=
  if n % UInt32.size < 64 then some (1 <<< (n % UInt32.size)) else none

/-- The distribution of the given probabilities on `n` qubits. -/
def ofProbabilities (ps : List Binary64) (n : Nat) : Except EngineFault Distribution :=
  match basisSize? n with
  | none => .error (.invalidRequest (.tooManyQubits n))
  | some size =>
    if ps.length ≠ size then .error (.responseShape (.probabilityCount size n ps.length))
    else
      match ps.find? (!isProbability ·) with
      | some p => .error (.responseShape (.invalidProbability p))
      | none =>
        if isNearOne (sum ps) then .ok ⟨ps⟩
        else .error (.responseShape (.probabilitySum (sum ps)))

/-- The distribution in an answer for `n` qubits. -/
def ofResponse (body : Json.Value) (n : Nat) : Except EngineFault Distribution :=
  match body.field? "probabilities" with
  | none => .error (.responseShape (.missing "probabilities"))
  | some v =>
    match (Json.Decoder.list .real).ofValue v with
    | .error e => .error (.responseShape (.malformed "'probabilities'" e))
    | .ok ps => ofProbabilities ps n

/-! ## Basis states -/

/-- How many zeros stand at the end of a number of 64 binary digits. -/
def trailingZeros (n : Nat) : Nat :=
  if h : n = 0 then 64
  else if n % 2 = 0 then
    have : n / 2 < n := by omega
    trailingZeros (n / 2) + 1
  else 0
termination_by n

/-- The number of qubits, read off the number of basis states. -/
def numQubits (d : Distribution) : Nat := trailingZeros d.probabilities.length

/-- Binary digits, at least `width` of them. -/
def binaryDigits (width n : Nat) : List Char :=
  let ds := Nat.toDigits 2 n
  List.replicate (width - ds.length) '0' ++ ds

/-- The basis state at a place as a ket. -/
def label (d : Distribution) (i : Nat) : String :=
  String.ofList ('|' :: binaryDigits d.numQubits i ++ ['⟩'])

/-- The basis states with their probabilities, in order. -/
def labeled (d : Distribution) : List (String × Binary64) :=
  d.probabilities.zipIdx.map fun (p, i) => (d.label i, p)

/-- The place and the probability of the most probable basis state, the first of several. -/
def mostLikely? (d : Distribution) : Option (Nat × Binary64) :=
  d.probabilities.zipIdx.foldl
    (fun best (p, i) => match best with
      | some (j, q) => if p.le q then some (j, q) else some (i, p)
      | none => some (i, p))
    none

end Distribution

end QuantumWiring
