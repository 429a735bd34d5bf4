/-!
# Faults in a text

A reader that meets a fault keeps the text from there on. The position of the fault is the size of
what stands before, in bytes.
-/

namespace Ldap.Text

/-- A fault and the text from its place on. -/
structure Stop (φ : Type) where
  fault : φ
  rest : List Char
  deriving DecidableEq, Repr

/-- The size of a text in bytes. -/
def byteSize : List Char → Nat
  | [] => 0
  | c :: cs => c.utf8Size + byteSize cs

/-- The bytes of a text before the place of a fault. -/
def Stop.position {φ : Type} (s : Stop φ) (text : String) : Nat :=
  byteSize text.toList - byteSize s.rest

/-- The character that a leading byte of UTF-8 is in Latin-1. Messages show single bytes so. -/
def leadByte (c : Char) : Char :=
  match String.utf8EncodeChar c with
  | [] => c
  | b :: _ => Char.ofNat b.toNat

end Ldap.Text
