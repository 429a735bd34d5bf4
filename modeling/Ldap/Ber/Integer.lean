import Ldap.Ber.Error

/-!
# Integer content

Whole numbers in two's complement, most significant byte first. `encode` writes as few bytes as
hold the sign; `decode` reads up to eight bytes and accepts needless leading ones. By the bits of a
word, `trim` finds the bytes to write, and `decodeWord` reads them.
-/

namespace Ldap.Ber.Integer

/-- The shortest two's-complement form of a number. -/
def encode (v : Int) : List UInt8 :=
  if -128 ≤ v ∧ v < 128 then [UInt8.ofNat (v % 256).toNat]
  else encode (v / 256) ++ [UInt8.ofNat (v % 256).toNat]
termination_by v.natAbs
decreasing_by omega

/-- The value of a byte that carries the sign. -/
def signed (b : UInt8) : Int :=
  if b < 0x80 then b.toNat else b.toNat - 256

/-- The two's-complement value of some bytes; zero for none. -/
def value : List UInt8 → Int
  | [] => 0
  | b :: rest => rest.foldl (fun v b => v * 256 + b.toNat) (signed b)

/-- The value of content that is read as a `kind` of number. -/
def decode (kind : ContentKind) (bytes : List UInt8) : Except Error Int64 :=
  if bytes.isEmpty then .error (.invalidContent kind .noBytes)
  else if 8 < bytes.length then .error (.invalidContent kind (.tooWide bytes.length))
  else .ok (Int64.ofInt (value bytes))

/-- The value of content that is read as a `kind` of number and has to fit in 32 bits. -/
def decode32 (kind : ContentKind) (bytes : List UInt8) : Except Error Int32 := do
  let v ← decode kind bytes
  if Int32.minValue.toInt ≤ v.toInt ∧ v.toInt ≤ Int32.maxValue.toInt then
    .ok (Int32.ofInt v.toInt)
  else .error (.invalidContent kind (.beyond32Bits v.toInt))

/-! ## Numbers that are held in words -/

/-- Whether a byte only repeats the sign that the next one has. -/
def repeatsSign (b c : UInt8) : Bool :=
  (b == 0x00 && c &&& 0x80 == 0) || (b == 0xFF && c &&& 0x80 != 0)

/-- Drops leading bytes that only repeat the sign, but never the last byte. -/
def trim : List UInt8 → List UInt8
  | b :: c :: rest => if repeatsSign b c then trim (c :: rest) else b :: c :: rest
  | bytes => bytes

/-- Shifts a byte into a signed word at the low end. -/
def shiftIn (v : Int64) (b : UInt8) : Int64 :=
  v <<< 8 ||| b.toUInt64.toInt64

/-- Reads content of at most eight bytes into a word that is filled with its sign. -/
def decodeWord (kind : ContentKind) : List UInt8 → Except Error Int64
  | [] => .error (.invalidContent kind .noBytes)
  | first :: rest =>
    if 8 < (first :: rest).length then
      .error (.invalidContent kind (.tooWide (first :: rest).length))
    else
      let seed := if first &&& 0x80 ≠ 0 then -1 else 0
      .ok ((first :: rest).foldl shiftIn seed)

end Ldap.Ber.Integer
