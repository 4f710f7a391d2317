/-!
# Unsigned decimal numbers

A typed count is an optional plus sign and one or more decimal digits; leading zeros are
allowed.  It is read only when its value is below a given limit.
-/

namespace QuantumWiring.Text

/-- The value of a decimal digit. -/
def digitValue (c : Char) : Nat := c.toNat - 48

/-- The value of a run of decimal digits, most significant first. -/
def decimalValue (cs : List Char) : Nat :=
  cs.foldl (fun n c => 10 * n + digitValue c) 0

/-- Read digits after an optional plus sign; the value has to be below `limit`. -/
def readBelow? (limit : Nat) (cs : List Char) : Option Nat :=
  let digits := match cs with
    | '+' :: rest => rest
    | _ => cs
  if digits ≠ [] ∧ digits.all Char.isDigit ∧ decimalValue digits < limit then
    some (decimalValue digits)
  else none

end QuantumWiring.Text
