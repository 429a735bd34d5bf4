/-!
# Hexadecimal digits

Digits in both letter cases, and bytes written as two digits.
-/

namespace Ldap.Text.Hex

/-- The value of a hexadecimal digit in either letter case. -/
def digit? (c : Char) : Option Nat :=
  if '0' ≤ c ∧ c ≤ '9' then some (c.toNat - '0'.toNat)
  else if 'a' ≤ c ∧ c ≤ 'f' then some (c.toNat - 'a'.toNat + 10)
  else if 'A' ≤ c ∧ c ≤ 'F' then some (c.toNat - 'A'.toNat + 10)
  else none

/-- The byte that two digits spell, most significant first. -/
def pair? (high low : Char) : Option UInt8 := do
  let h ← digit? high
  let l ← digit? low
  some (UInt8.ofNat (16 * h + l))

/-- The lowercase digit of a value below 16. -/
def lowerDigit (n : Nat) : Char :=
  if n < 10 then Char.ofNat ('0'.toNat + n) else Char.ofNat ('a'.toNat + (n - 10))

/-- The uppercase digit of a value below 16. -/
def upperDigit (n : Nat) : Char :=
  if n < 10 then Char.ofNat ('0'.toNat + n) else Char.ofNat ('A'.toNat + (n - 10))

/-- A byte as two lowercase digits. -/
def lower (b : UInt8) : List Char :=
  [lowerDigit (b.toNat / 16), lowerDigit (b.toNat % 16)]

/-- A byte as two uppercase digits. -/
def upper (b : UInt8) : List Char :=
  [upperDigit (b.toNat / 16), upperDigit (b.toNat % 16)]

/-- Bytes as lowercase digits without separators. -/
def encode (bytes : List UInt8) : List Char :=
  bytes.flatMap lower

/-- Reads bytes written without separators; `none` on a stray or missing digit. -/
def decode? : List Char → Option (List UInt8)
  | [] => some []
  | [_] => none
  | h :: l :: rest => do
    let b ← pair? h l
    let bs ← decode? rest
    some (b :: bs)

end Ldap.Text.Hex
