/-!
# Decimal numbers

Whole numbers in text: an optional sign, then one or more of the ten ASCII digits.
-/

namespace Ldap.Text.Decimal

/-- The value of digits, the first of which counts most. -/
def value (digits : List Char) : Nat :=
  digits.foldl (fun n c => 10 * n + (c.toNat - '0'.toNat)) 0

/-- Reads digits. -/
def natural? (cs : List Char) : Option Nat :=
  if cs.isEmpty || !cs.all Char.isDigit then none else some (value cs)

/-- Reads a number that may have one sign. -/
def integer? : List Char → Option Int
  | '-' :: cs => (natural? cs).map fun n => -(n : Int)
  | '+' :: cs => (natural? cs).map fun n => (n : Int)
  | cs => (natural? cs).map fun n => (n : Int)

/-- Reads a number that fits in 32 bits. -/
def int32? (cs : List Char) : Option Int32 :=
  match integer? cs with
  | some v =>
    if Int32.minValue.toInt ≤ v ∧ v ≤ Int32.maxValue.toInt then some (Int32.ofInt v) else none
  | none => none

end Ldap.Text.Decimal
