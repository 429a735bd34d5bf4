import Ldap.Proofs.Ber.Prefix
import Ldap.Proofs.Ber.Word

/-!
# Lengths that are held in words

A length that is held in a word is written from the eight bytes of the word, without the leading
zeros (`encodeWord`). Its size is counted by shifts (`sizeOfWord`), and it is read by shifting the
bytes into a word again (`decodeWord`). The three agree with `encode`, `encodedSize` and `decode` on
all words and all bytes, so that what is written is read back and nothing shorter is
(`codec_exact_and_shortest`).
-/

namespace Ldap.Ber.Length

/-! ## Leading zeros -/

/-- The bytes of a number spell it. -/
theorem unsigned_bigEndian (n : Nat) : unsigned (bigEndian n) = n := by
  induction n using bigEndian.induct with
  | case1 => simp [bigEndian, unsigned]
  | case2 n hn ih =>
    rw [bigEndian, if_neg hn, unsigned_concat, ih, toNat_ofNat_mod]
    omega

/-- The bytes of a number are those that spell it, from the first that is not zero. -/
theorem bigEndian_unsigned (bytes : List UInt8) :
    bigEndian (unsigned bytes) = bytes.dropWhile (· == 0) := by
  induction bytes with
  | nil => simp [bigEndian, unsigned]
  | cons b bytes ih =>
    by_cases hb : b = 0
    · rw [List.dropWhile_cons_of_pos (by simpa using hb), ← ih, unsigned_cons, hb]
      simp
    · have hpos : 0 < b.toNat := Nat.pos_of_ne_zero fun h => hb (UInt8.toNat_inj.1 h)
      have hsize : (bigEndian (unsigned (b :: bytes))).length = (b :: bytes).length := by
        rw [length_bigEndian]
        refine le_antisymm (byteCount_le_iff.2 (unsigned_lt _)) ?_
        -- the first byte stands for more than the others could spell
        by_contra hshort
        have hlt := byteCount_le_iff.1 (Nat.le_of_lt_succ (not_le.1 hshort))
        rw [unsigned_cons] at hlt
        have hle := Nat.le_mul_of_pos_left (256 ^ bytes.length) hpos
        omega
      rw [List.dropWhile_cons_of_neg (by simpa using hb)]
      exact unsigned_inj hsize (unsigned_bigEndian _)

/-! ## Words that are written -/

theorem word_lt_iff (w : UInt64) : w < 0x80 ↔ w.toNat < 0x80 :=
  UInt64.lt_iff_toNat_lt

/-- A length below 128 is its own byte. The bytes of a longer one are those of the word without its
leading zeros, behind a byte that counts them and is marked by its highest bit. -/
theorem encode_eq_encodeWord (w : UInt64) : encode w.toNat = encodeWord w := by
  have hbytes : bigEndian w.toNat = (Word.bytes w).dropWhile (· == 0) := by
    rw [← bigEndian_unsigned, Word.unsigned_bytes]
  unfold encode encodeWord
  by_cases hw : w < 0x80
  · rw [if_pos hw, if_pos ((word_lt_iff w).1 hw)]
    rfl
  · rw [if_neg hw, if_neg (mt (word_lt_iff w).2 hw), ← hbytes]
    dsimp only
    rw [length_bigEndian]
    have hcount : byteCount w.toNat ≤ 8 := byteCount_le_iff.2 w.toNat_lt
    generalize byteCount w.toNat = count at hcount
    -- the count has none of the bits of the mark that is put next to it
    have hmark : (UInt8.ofNat (0x80 + count)).toNat = (0x80 ||| UInt8.ofNat count).toNat := by
      rw [UInt8.toNat_or, UInt8.toNat_ofNat_of_lt' (show 0x80 + count < 256 by omega),
        UInt8.toNat_ofNat_of_lt' (show count < 256 by omega)]
      exact Nat.two_pow_add_eq_or_of_lt (show count < 2 ^ 7 by omega) 1
    rw [UInt8.toNat_inj.1 hmark]

/-- A word has as many bytes as it can be shifted by one before nothing is left. -/
theorem byteCount_eq_shifts (w : UInt64) : byteCount w.toNat = shifts w := by
  induction w using shifts.induct with
  | case1 => simp [shifts, byteCount_zero]
  | case2 w hw ih =>
    rw [shifts, if_neg hw, byteCount_pos (Word.toNat_ne_zero hw), ← ih,
      Word.toNat_shiftRight_eight]

theorem encodedSize_eq_sizeOfWord (w : UInt64) : encodedSize w.toNat = sizeOfWord w := by
  unfold encodedSize sizeOfWord
  rw [byteCount_eq_shifts]
  exact if_congr (word_lt_iff w).symm rfl rfl

/-! ## Words that are read -/

/-- The highest bit of the first byte tells a count from a length, and the others are the count. -/
theorem continuationCount_eq_countBits (first : UInt8) :
    continuationCount first = countBits first := by
  unfold continuationCount countBits
  by_cases hfirst : first < 0x80
  · rw [if_pos hfirst, if_pos ((and_0x80_eq_zero_iff first).2 hfirst)]
  · have hlow : (first &&& 0x7F).toNat = first.toNat - 0x80 := by
      have hlt := first.toNat_lt
      have hle : 128 ≤ first.toNat := UInt8.le_iff_toNat_le.1 (UInt8.not_lt.1 hfirst)
      rw [toNat_and_0x7F]
      omega
    rw [if_neg hfirst, if_neg (mt (and_0x80_eq_zero_iff first).1 hfirst), hlow]

/-- Shifting bytes into a word makes the number that they spell, as the count is at most four. -/
theorem assemble_eq_assembleWord (first : UInt8) (rest : List UInt8) :
    assemble first rest = (assembleWord first rest).toNat := by
  unfold assemble assembleWord
  by_cases hfirst : first < 0x80
  · rw [if_pos hfirst, if_pos ((and_0x80_eq_zero_iff first).2 hfirst)]
    rfl
  · rw [if_neg hfirst, if_neg (mt (and_0x80_eq_zero_iff first).1 hfirst),
      Word.toNat_foldl_shiftIn]

theorem decodeWord_cons_of_count {first : UInt8} {count : Nat} (h : countBits first = .ok count)
    (rest : List UInt8) :
    decodeWord (first :: rest) =
      if rest.length < count then .error (.truncated (count + 1) (rest.length + 1))
      else .ok (assembleWord first (rest.take count), count + 1) := by
  rw [decodeWord, h]
  rfl

theorem decodeWord_cons_of_error {first : UInt8} {e : Error} (h : countBits first = .error e)
    (rest : List UInt8) : decodeWord (first :: rest) = .error e := by
  rw [decodeWord, h]
  rfl

/-- Reading into a word gives the same lengths, the same counts of bytes and the same errors. -/
theorem decodeCounted_eq_decodeWord (bytes : List UInt8) :
    decodeCounted bytes = (decodeWord bytes).map fun x => (x.1.toNat, x.2) := by
  cases bytes with
  | nil => rfl
  | cons first rest =>
    have hsame := continuationCount_eq_countBits first
    rw [decodeCounted]
    cases hcount : countBits first with
    | error e =>
      rw [decode_cons_of_error (hsame.trans hcount), decodeWord_cons_of_error hcount]
      rfl
    | ok count =>
      rw [decode_cons_of_count (hsame.trans hcount), decodeWord_cons_of_count hcount]
      by_cases hlen : rest.length < count
      · rw [if_pos hlen, if_pos hlen]
        rfl
      · have htook : (first :: rest).length - (rest.drop count).length = count + 1 := by
          rw [List.length_cons, List.length_drop]
          omega
        rw [if_neg hlen, if_neg hlen, assemble_eq_assembleWord]
        show Except.ok (_, _) = Except.ok (_, _)
        rw [htook]

/-! ## The codec -/

theorem Spelled.ne_nil {spelled : List UInt8} {n : Nat} (h : Spelled spelled n) :
    spelled ≠ [] := by
  cases h <;> simp

/-- The bytes that are read are counted, and they spell the length. -/
theorem decodeCounted_eq_ok_iff {bytes : List UInt8} {n k : Nat} :
    decodeCounted bytes = .ok (n, k) ↔
      ∃ spelled rest, Spelled spelled n ∧ bytes = spelled ++ rest ∧ k = spelled.length := by
  unfold decodeCounted
  constructor
  · intro h
    cases hdecode : decode bytes with
    | error e =>
      rw [hdecode] at h
      cases h
    | ok x =>
      rw [hdecode] at h
      obtain ⟨spelled, hspelled, rfl⟩ := decode_eq_ok_iff_spelled.1 hdecode
      cases h
      exact ⟨spelled, x.2, hspelled, rfl, by simp⟩
  · rintro ⟨spelled, rest, hspelled, rfl, rfl⟩
    rw [decode_eq_ok_iff_spelled.2 ⟨spelled, hspelled, rfl⟩]
    simp [Except.map]

/-- A length that a word holds is written in so many bytes as its size tells. One of less than two
to the 32 is read back from them, whatever follows, and from no fewer; a greater one is refused.
Only lengths of less than two to the 32 are read, from one to five bytes. Both ways, bytes are what
the computations on words make of them. -/
theorem codec_exact_and_shortest :
    (∀ n < 2 ^ 32,
      (∀ rest, decodeCounted (encode n ++ rest) = .ok (n, encodedSize n)) ∧
      ∀ bytes, bytes.length < encodedSize n → ∀ k, decodeCounted bytes ≠ .ok (n, k)) ∧
    (∀ n, 2 ^ 32 ≤ n → n < 2 ^ 64 →
      (encode n).length = encodedSize n ∧
      ∀ rest, decodeCounted (encode n ++ rest) = .error (.lengthTooLarge (byteCount n))) ∧
    (∀ bytes n k, decodeCounted bytes = .ok (n, k) → n < 2 ^ 32 ∧ 1 ≤ k ∧ k ≤ 5) ∧
    (∀ w : UInt64, encode w.toNat = encodeWord w ∧ encodedSize w.toNat = sizeOfWord w) ∧
    ∀ bytes, decodeCounted bytes = (decodeWord bytes).map fun x => (x.1.toNat, x.2) := by
  refine ⟨?exact, ?large, ?range, ?written, decodeCounted_eq_decodeWord⟩
  case exact =>
    intro n hn
    constructor
    · intro rest
      exact decodeCounted_eq_ok_iff.2
        ⟨encode n, rest, spelled_encode hn, rfl, (length_encode n).symm⟩
    · intro bytes hshort k h
      obtain ⟨spelled, rest, hspelled, rfl, -⟩ := decodeCounted_eq_ok_iff.1 h
      have hle := hspelled.encodedSize_le.2
      rw [List.length_append] at hshort
      omega
  case large =>
    intro n hle hlt
    refine ⟨length_encode n, fun rest => ?_⟩
    rw [decodeCounted, decode_encode_of_le hle hlt]
    rfl
  case range =>
    intro bytes n k h
    obtain ⟨spelled, rest, hspelled, -, rfl⟩ := decodeCounted_eq_ok_iff.1 h
    exact ⟨hspelled.encodedSize_le.1, List.length_pos_of_ne_nil hspelled.ne_nil,
      hspelled.length_le⟩
  case written =>
    intro w
    exact ⟨encode_eq_encodeWord w, encodedSize_eq_sizeOfWord w⟩

end Ldap.Ber.Length
