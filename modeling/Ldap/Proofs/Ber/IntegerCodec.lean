import Ldap.Proofs.Ber.Integer
import Ldap.Proofs.Ber.Word

/-!
# Integers that are held in words

An integer of 64 bits is written from the eight bytes of its word, without the leading bytes that
only repeat the sign (`trim`), and read by shifting bytes into a word that is filled with the sign
(`decodeWord`). Both agree with `encode` and `decode`: bytes are read as their two's-complement
value, and what is written are the fewest bytes of that value (`codec_exact_and_minimal`).
-/

namespace Ldap.Ber.Integer

/-! ## Two's complement -/

/-- The number that bytes stand for as a bit vector with a sign. -/
def twosComplement (bytes : List UInt8) : Int :=
  (BitVec.ofNat (8 * bytes.length) (unsigned bytes)).toInt

/-- The first byte has the sign, the others are digits. -/
theorem value_cons (b : UInt8) (rest : List UInt8) :
    value (b :: rest) = signed b * 256 ^ rest.length + unsigned rest := by
  induction rest using List.reverseRecOn with
  | nil => simp [value_singleton, unsigned]
  | append_singleton rest c ih =>
    rw [← List.cons_append, value_concat (List.cons_ne_nil b rest), ih, unsigned_concat,
      List.length_append, List.length_singleton, pow_succ]
    push_cast
    ring

/-- A value and the number that its bytes spell differ by what the bytes have no place for. -/
theorem value_emod (bytes : List UInt8) :
    value bytes % 256 ^ bytes.length = unsigned bytes := by
  cases bytes with
  | nil => rfl
  | cons b rest =>
    have hlt : (unsigned (b :: rest) : Int) < 256 ^ (b :: rest).length := by
      exact_mod_cast unsigned_lt (b :: rest)
    have hspelled : (unsigned (b :: rest) : Int) = b.toNat * 256 ^ rest.length + unsigned rest := by
      exact_mod_cast unsigned_cons b rest
    rw [value_cons, signed]
    split
    · rw [← hspelled]
      exact Int.emod_eq_of_lt (Int.natCast_nonneg _) hlt
    · have hnegative : ((b.toNat : Int) - 256) * 256 ^ rest.length + unsigned rest =
          unsigned (b :: rest) + 256 ^ (b :: rest).length * (-1) := by
        rw [hspelled, List.length_cons, pow_succ]
        ring
      rw [hnegative, Int.add_mul_emod_self_left]
      exact Int.emod_eq_of_lt (Int.natCast_nonneg _) hlt

theorem value_eq_twosComplement (bytes : List UInt8) : value bytes = twosComplement bytes := by
  have hwidth : ((2 ^ (8 * bytes.length) : Nat) : Int) = 256 ^ bytes.length := by
    rw [pow_mul]
    norm_num
  rw [twosComplement, BitVec.toInt_ofNat', ← value_emod, ← hwidth, Int.emod_bmod]
  cases hlen : bytes.length with
  | zero =>
    rw [List.eq_nil_of_length_eq_zero hlen]
    rfl
  | succ k =>
    -- a value lies in the half of the range on either side of zero
    have hbounds := value_bounds hlen
    rw [hlen, pow_succ] at hwidth
    exact (Int.bmod_eq_of_le (by omega) (by omega)).symm

/-- Bytes of the same value are the same if they are equally many. -/
theorem value_inj {bytes bytes' : List UInt8} (hlen : bytes.length = bytes'.length)
    (h : value bytes = value bytes') : bytes = bytes' := by
  have hspelled : (unsigned bytes : Int) = unsigned bytes' := by
    rw [← value_emod, ← value_emod, h, hlen]
  exact unsigned_inj hlen (Int.ofNat_inj.1 hspelled)

/-! ## Integers that are written -/

/-- The sign of a byte is repeated if the byte alone has the value that it has after the other. -/
theorem repeatsSign_iff (b c : UInt8) :
    repeatsSign b c = true ↔ signed b * 256 + c.toNat = signed c := by
  have hb := b.toNat_lt
  have hc := c.toNat_lt
  have hzero : b = 0x00 ↔ b.toNat = 0 := UInt8.toNat_inj.symm
  have hones : b = 0xFF ↔ b.toNat = 255 := UInt8.toNat_inj.symm
  have hsign (x : UInt8) : x < 0x80 ↔ x.toNat < 128 := UInt8.lt_iff_toNat_lt
  simp only [repeatsSign, signed, Bool.or_eq_true, Bool.and_eq_true, beq_iff_eq, bne_iff_ne, ne_eq,
    and_0x80_eq_zero_iff, hzero, hones, hsign]
  split <;> split <;> omega

theorem value_cons_cons (b c : UInt8) (rest : List UInt8) :
    value (b :: c :: rest) = (signed b * 256 + c.toNat) * 256 ^ rest.length + unsigned rest := by
  rw [value_cons, unsigned_cons, List.length_cons, pow_succ]
  push_cast
  ring

/-- A byte that does not repeat the sign is needed. -/
theorem length_lt_of_not_repeatsSign {b c : UInt8} (h : ¬ repeatsSign b c = true)
    (rest : List UInt8) :
    (c :: rest).length < (encode (value (b :: c :: rest))).length := by
  by_contra hshort
  rw [List.length_cons, not_lt, length_encode_le_iff, value_cons_cons] at hshort
  obtain ⟨hlow, hhigh⟩ := hshort
  have hrest : (unsigned rest : Int) < 256 ^ rest.length := by
    exact_mod_cast unsigned_lt rest
  have hnonneg : (0 : Int) ≤ unsigned rest := Int.natCast_nonneg _
  generalize hhead : signed b * 256 + c.toNat = head at hlow hhigh
  -- otherwise the first two bytes had a value that one byte has
  have hmin : -129 < head := lt_of_mul_lt_mul_right (a := (256 : Int) ^ rest.length)
    (by linarith) (by positivity)
  have hmax : head < 128 := lt_of_mul_lt_mul_right (a := (256 : Int) ^ rest.length)
    (by linarith) (by positivity)
  refine h ((repeatsSign_iff b c).2 ?_)
  have hc := signed_bounds c
  have hdigit : signed c = c.toNat ∨ signed c = c.toNat - 256 := by
    unfold signed
    split <;> simp
  omega

/-- What is written for a value are its bytes without those that only repeat the sign. -/
theorem encode_value {bytes : List UInt8} (h : bytes ≠ []) : encode (value bytes) = trim bytes := by
  have hshort := length_encode_value_le h
  have hwhole (hlong : bytes.length ≤ (encode (value bytes)).length) :
      encode (value bytes) = bytes :=
    value_inj (le_antisymm hshort hlong) (value_encode _)
  match bytes with
  | [b] =>
    exact hwhole (List.length_pos_of_ne_nil (encode_ne_nil _))
  | b :: c :: rest =>
    rw [trim]
    split
    · next hrepeats =>
      have hsame : value (b :: c :: rest) = value (c :: rest) := by
        rw [value_cons_cons, (repeatsSign_iff b c).1 hrepeats, value_cons]
      rw [hsame]
      exact encode_value (List.cons_ne_nil c rest)
    · next hneeded => exact hwhole (length_lt_of_not_repeatsSign hneeded rest)

theorem value_bytes (v : Int64) : value (Word.bytes v.toUInt64) = v.toInt := by
  rw [value_eq_twosComplement]
  show (BitVec.ofNat 64 (unsigned (Word.bytes v.toUInt64))).toInt = v.toBitVec.toInt
  rw [Word.unsigned_bytes]
  exact congrArg BitVec.toInt (BitVec.ofNat_toNat 64 v.toBitVec)

theorem encode_eq_trim (v : Int64) : encode v.toInt = trim (Word.bytes v.toUInt64) := by
  have hbytes : Word.bytes v.toUInt64 ≠ [] := List.cons_ne_nil _ _
  rw [← encode_value hbytes, value_bytes]

/-! ## Integers that are read -/

/-- The sign of a word makes no difference when bytes are shifted in. -/
theorem toUInt64_shiftIn (v : Int64) (b : UInt8) :
    (shiftIn v b).toUInt64 = Word.shiftIn v.toUInt64 b := by
  apply UInt64.toBitVec_inj.1
  show (v <<< 8 ||| b.toUInt64.toInt64).toBitVec = _
  rw [Int64.toBitVec_or, Int64.toBitVec_shiftLeft]
  rfl

theorem toNat_toUInt64_ofInt (x : Int) : ((Int64.ofInt x).toUInt64.toNat : Int) = x % 2 ^ 64 := by
  show ((BitVec.ofInt 64 x).toNat : Int) = _
  rw [BitVec.toNat_ofInt]
  omega

/-- To shift a byte in is to append a digit, as far as a word holds it. -/
theorem shiftIn_ofInt (x : Int) (b : UInt8) :
    shiftIn (Int64.ofInt x) b = Int64.ofInt (x * 256 + b.toNat) := by
  have hx := toNat_toUInt64_ofInt x
  have hsum := toNat_toUInt64_ofInt (x * 256 + b.toNat)
  have hshift := Word.toNat_shiftIn (Int64.ofInt x).toUInt64 b
  rw [← toUInt64_shiftIn] at hshift
  apply Int64.toBitVec_inj.1
  apply BitVec.eq_of_toNat_eq
  show (shiftIn (Int64.ofInt x) b).toUInt64.toNat = (Int64.ofInt (x * 256 + b.toNat)).toUInt64.toNat
  omega

/-- With a word that is filled with the sign before it, the first byte has its value. -/
theorem foldl_shiftIn (first : UInt8) (rest : List UInt8) :
    (first :: rest).foldl shiftIn (if first &&& 0x80 ≠ 0 then -1 else 0) =
      Int64.ofInt (value (first :: rest)) := by
  have hzero : (0 : Int64) = Int64.ofInt 0 := rfl
  have hones : (-1 : Int64) = Int64.ofInt (-1) := rfl
  have hseed : shiftIn (if first &&& 0x80 ≠ 0 then -1 else 0) first =
      Int64.ofInt (signed first) := by
    unfold signed
    by_cases hfirst : first < 0x80
    · rw [if_neg (not_not.2 ((and_0x80_eq_zero_iff first).2 hfirst)), if_pos hfirst, hzero,
        shiftIn_ofInt, zero_mul, zero_add]
    · have hvalue : (-1 : Int) * 256 + first.toNat = first.toNat - 256 := by omega
      rw [if_pos (mt (and_0x80_eq_zero_iff first).1 hfirst), if_neg hfirst, hones, shiftIn_ofInt,
        hvalue]
  rw [List.foldl_cons, hseed, value]
  exact List.foldl_hom Int64.ofInt shiftIn_ofInt

theorem decode_of_length_le (kind : ContentKind) {bytes : List UInt8} (h : bytes ≠ [])
    (hlen : bytes.length ≤ 8) : decode kind bytes = .ok (Int64.ofInt (value bytes)) := by
  rw [decode, if_neg (mt List.isEmpty_iff.1 h), if_neg hlen.not_gt]

theorem decode_of_lt_length (kind : ContentKind) {bytes : List UInt8} (hlen : 8 < bytes.length) :
    decode kind bytes = .error (.invalidContent kind (.tooWide bytes.length)) := by
  have hne : bytes ≠ [] := List.ne_nil_of_length_pos (by omega)
  rw [decode, if_neg (mt List.isEmpty_iff.1 hne), if_pos hlen]

theorem decode_eq_decodeWord (kind : ContentKind) (bytes : List UInt8) :
    decode kind bytes = decodeWord kind bytes := by
  cases bytes with
  | nil => rfl
  | cons first rest =>
    rw [decodeWord]
    split
    · next hlen => exact decode_of_lt_length kind hlen
    · next hlen =>
      dsimp only
      rw [foldl_shiftIn, decode_of_length_le kind (List.cons_ne_nil first rest) (not_lt.1 hlen)]

/-! ## The codec -/

/-- Bytes that are fewer than all others that stand for the same number. -/
def Shortest (bytes : List UInt8) : Prop :=
  bytes ≠ [] ∧ ∀ other, other ≠ [] → twosComplement other = twosComplement bytes → other ≠ bytes →
    bytes.length < other.length

theorem shortest_encode (v : Int) : Shortest (encode v) := by
  refine ⟨encode_ne_nil v, fun other hne hsame hother => ?_⟩
  rw [← value_eq_twosComplement, ← value_eq_twosComplement, value_encode] at hsame
  have hle := length_encode_value_le hne
  rw [hsame] at hle
  apply lt_of_le_of_ne hle
  intro hlen
  exact hother (value_inj hlen.symm (hsame.trans (value_encode v).symm))

/-- An integer of 64 bits is written in one to eight bytes, from which it is read back, and it is
read from no fewer. One to eight bytes are read as the number that they stand for, which is written
in the fewest bytes that stand for it; no bytes and more than eight bytes are refused. Both ways,
bytes are what the computations on words make of them. -/
theorem codec_exact_and_minimal (kind : ContentKind) :
    (∀ v : Int64, 1 ≤ (encode v.toInt).length ∧ (encode v.toInt).length ≤ 8 ∧
      decode kind (encode v.toInt) = .ok v ∧
      ∀ bytes, bytes.length < (encode v.toInt).length → decode kind bytes ≠ .ok v) ∧
    (∀ bytes, 1 ≤ bytes.length → bytes.length ≤ 8 →
      ∃ v, decode kind bytes = .ok v ∧ v.toInt = twosComplement bytes ∧
        twosComplement (encode v.toInt) = v.toInt ∧ Shortest (encode v.toInt)) ∧
    decode kind [] = .error (.invalidContent kind .noBytes) ∧
    (∀ bytes, 8 < bytes.length →
      decode kind bytes = .error (.invalidContent kind (.tooWide bytes.length))) ∧
    (∀ v : Int64, encode v.toInt = trim (Word.bytes v.toUInt64)) ∧
    ∀ bytes, decode kind bytes = decodeWord kind bytes := by
  refine ⟨?written, ?read, rfl, fun _ => decode_of_lt_length kind, encode_eq_trim,
    decode_eq_decodeWord kind⟩
  case written =>
    intro v
    have hdecode := decode_encode kind v
    obtain ⟨hne, hlen, -⟩ := decode_eq_ok_iff.1 hdecode
    refine ⟨List.length_pos_of_ne_nil hne, hlen, hdecode, fun bytes hfewer h => ?_⟩
    have hle := length_encode_le_of_decode h
    omega
  case read =>
    intro bytes hpos hlen
    have h := decode_of_length_le kind (List.ne_nil_of_length_pos hpos) hlen
    obtain ⟨-, -, hv⟩ := decode_eq_ok_iff.1 h
    refine ⟨_, h, ?_, ?_, shortest_encode _⟩
    · rw [hv, value_eq_twosComplement]
    · rw [← value_eq_twosComplement, value_encode]

end Ldap.Ber.Integer
