import Ldap.Ber.Error
import Ldap.Ber.Word

/-!
# Definite lengths

A length below 128 is one byte. A longer one is written big-endian without leading zeros, after a
byte that counts its bytes. At most four such bytes are read. `encodeWord`, `sizeOfWord` and
`decodeWord` do the same by the bits of a word.
-/

namespace Ldap.Ber.Length

/-- The number of bytes of a number without leading zeros; none for zero. -/
def byteCount (n : Nat) : Nat :=
  if n = 0 then 0 else byteCount (n / 256) + 1

/-- The bytes of a number, most significant first, without leading zeros. -/
def bigEndian (n : Nat) : List UInt8 :=
  if n = 0 then [] else bigEndian (n / 256) ++ [UInt8.ofNat (n % 256)]

/-- The shortest encoding of a length. -/
def encode (n : Nat) : List UInt8 :=
  if n < 0x80 then [UInt8.ofNat n]
  else UInt8.ofNat (0x80 + byteCount n) :: bigEndian n

/-- The number of bytes that `encode` writes. -/
def encodedSize (n : Nat) : Nat :=
  if n < 0x80 then 1 else 1 + byteCount n

/-- How many bytes of the length follow its first byte. -/
def continuationCount (first : UInt8) : Except Error Nat :=
  if first < 0x80 then .ok 0
  else
    let count := first.toNat - 0x80
    if count = 0 then .error .indefiniteLength
    else if 4 < count then .error (.lengthTooLarge count)
    else .ok count

/-- The number that bytes spell, most significant first. Only the low 64 bits are kept. -/
def ofBigEndian (bytes : List UInt8) : Nat :=
  bytes.foldl (fun n b => (n * 256 + b.toNat) % UInt64.size) 0

/-- The length that a first byte and the bytes after it denote. -/
def assemble (first : UInt8) (rest : List UInt8) : Nat :=
  if first < 0x80 then first.toNat else ofBigEndian rest

/-- Reads a length and returns what follows it. -/
def decode : List UInt8 → Except Error (Nat × List UInt8)
  | [] => .error (.truncated 1 0)
  | first :: rest => do
    let count ← continuationCount first
    if rest.length < count then
      .error (.truncated (count + 1) (rest.length + 1))
    else
      .ok (assemble first (rest.take count), rest.drop count)

/-! ## Lengths that are held in words -/

/-- Writes the length that is held in a word. -/
def encodeWord (w : UInt64) : List UInt8 :=
  if w < 0x80 then [w.toUInt8]
  else
    let significant := (Word.bytes w).dropWhile (· == 0)
    (0x80 ||| UInt8.ofNat significant.length) :: significant

/-- How many bytes a word is shifted by until nothing is left of it. -/
def shifts (w : UInt64) : Nat :=
  if w = 0 then 0 else shifts (w >>> 8) + 1
termination_by w.toNat
decreasing_by
  have hpos := Word.toNat_ne_zero ‹w ≠ 0›
  rw [Word.toNat_shiftRight_eight]
  omega

/-- The number of bytes that `encodeWord` writes. -/
def sizeOfWord (w : UInt64) : Nat :=
  if w < 0x80 then 1 else 1 + shifts w

/-- How many bytes of the length follow its first byte, by the bits of that byte. -/
def countBits (first : UInt8) : Except Error Nat :=
  if first &&& 0x80 = 0 then .ok 0
  else
    let count := (first &&& 0x7F).toNat
    if count = 0 then .error .indefiniteLength
    else if 4 < count then .error (.lengthTooLarge count)
    else .ok count

/-- The word that a first byte and the bytes after it denote. -/
def assembleWord (first : UInt8) (rest : List UInt8) : UInt64 :=
  if first &&& 0x80 = 0 then first.toUInt64 else rest.foldl Word.shiftIn 0

/-- Reads a length into a word and tells how many bytes it took. -/
def decodeWord : List UInt8 → Except Error (UInt64 × Nat)
  | [] => .error (.truncated 1 0)
  | first :: rest => do
    let count ← countBits first
    if rest.length < count then
      .error (.truncated (count + 1) (rest.length + 1))
    else
      .ok (assembleWord first (rest.take count), count + 1)

/-- Reads a length and tells how many bytes it took. -/
def decodeCounted (bytes : List UInt8) : Except Error (Nat × Nat) :=
  (decode bytes).map fun x => (x.1, bytes.length - x.2.length)

end Ldap.Ber.Length
