import Ldap.Ber.Element
import Mathlib.Tactic

/-!
# Lengths on the wire

`Length.encode` writes a length that `Length.decode` reads back (`decode_encode`), whatever follows.
The decoder accepts longer forms than the encoder writes, but no shorter ones
(`exists_prefix_of_decode`), so that a length written again takes no more room.
-/

namespace Ldap.Ber.Length

/-! ## The size of a length -/

theorem byteCount_zero : byteCount 0 = 0 := by
  rw [byteCount, if_pos rfl]

/-- A number takes one byte more than its 256th part. -/
theorem byteCount_pos {n : Nat} (h : n ≠ 0) : byteCount n = byteCount (n / 256) + 1 := by
  rw [byteCount, if_neg h]

/-- A number has no more than `k` bytes exactly if it is less than 256 to the `k`. -/
theorem byteCount_le_iff {n k : Nat} : byteCount n ≤ k ↔ n < 256 ^ k := by
  induction k generalizing n with
  | zero =>
    by_cases hn : n = 0
    · simp [hn, byteCount_zero]
    · rw [byteCount_pos hn]
      simp [hn]
  | succ k ih =>
    by_cases hn : n = 0
    · subst hn
      simp [byteCount_zero]
    · rw [byteCount_pos hn, Nat.add_le_add_iff_right, ih, Nat.div_lt_iff_lt_mul (by decide),
        Nat.pow_succ]

theorem byteCount_mono {m n : Nat} (h : m ≤ n) : byteCount m ≤ byteCount n :=
  byteCount_le_iff.2 (lt_of_le_of_lt h (byteCount_le_iff.1 le_rfl))

/-- A longer content has no shorter length. -/
theorem encodedSize_mono {m n : Nat} (h : m ≤ n) : encodedSize m ≤ encodedSize n := by
  have hcount := byteCount_mono h
  unfold encodedSize
  split <;> split <;> omega

/-- A number is written in as many bytes as it takes. -/
theorem length_bigEndian (n : Nat) : (bigEndian n).length = byteCount n := by
  induction n using bigEndian.induct with
  | case1 => simp [bigEndian, byteCount]
  | case2 n hn ih =>
    rw [bigEndian, if_neg hn, byteCount_pos hn, List.length_append, ih]
    rfl

/-- A length is written in as many bytes as its size tells. -/
@[simp] theorem length_encode (n : Nat) : (encode n).length = encodedSize n := by
  unfold encode encodedSize
  split
  · rfl
  · rw [List.length_cons, length_bigEndian, Nat.add_comm]

/-! ## Bytes that spell a number -/

/-- Bytes are read into a word, from which what does not fit falls out. -/
theorem ofBigEndian_concat (bytes : List UInt8) (b : UInt8) :
    ofBigEndian (bytes ++ [b]) = (ofBigEndian bytes * 256 + b.toNat) % 2 ^ 64 := by
  simp [ofBigEndian, UInt64.size, List.foldl_append]

theorem toNat_ofNat_mod (n : Nat) : (UInt8.ofNat (n % 256)).toNat = n % 256 := by
  rw [UInt8.toNat_ofNat', Nat.mod_mod]

/-- A number that fits a word is read back from its bytes. -/
theorem ofBigEndian_bigEndian {n : Nat} (h : n < 2 ^ 64) : ofBigEndian (bigEndian n) = n := by
  induction n using bigEndian.induct with
  | case1 => simp [bigEndian, ofBigEndian]
  | case2 n hn ih =>
    rw [bigEndian, if_neg hn, ofBigEndian_concat, ih (by omega), toNat_ofNat_mod]
    omega

/-- A few bytes spell no more numbers than they have digits for. -/
theorem ofBigEndian_lt (bytes : List UInt8) : ofBigEndian bytes < 256 ^ bytes.length := by
  induction bytes using List.reverseRecOn with
  | nil => simp [ofBigEndian]
  | append_singleton bytes b ih =>
    rw [ofBigEndian_concat, List.length_append, List.length_singleton, Nat.pow_succ]
    have hb := b.toNat_lt
    -- the sum is kept in 64 bits, which only makes it less
    have hle := Nat.mod_le (ofBigEndian bytes * 256 + b.toNat) (2 ^ 64)
    omega

theorem ofBigEndian_concat_of_lt {bytes : List UInt8} (h : bytes.length < 8) (b : UInt8) :
    ofBigEndian (bytes ++ [b]) = ofBigEndian bytes * 256 + b.toNat := by
  have hlt := ofBigEndian_lt bytes
  have hpow : 256 ^ bytes.length ≤ 256 ^ 7 := Nat.pow_le_pow_right (by decide) (by omega)
  have hb := b.toNat_lt
  rw [ofBigEndian_concat, Nat.mod_eq_of_lt (by omega)]

/-- Bytes that spell the same number are the same if they are equally many. -/
theorem ofBigEndian_inj {bytes bytes' : List UInt8} (hlen : bytes.length = bytes'.length)
    (hle : bytes.length ≤ 8) (h : ofBigEndian bytes = ofBigEndian bytes') : bytes = bytes' := by
  induction bytes using List.reverseRecOn generalizing bytes' with
  | nil => exact (List.eq_nil_of_length_eq_zero hlen.symm).symm
  | append_singleton bytes b ih =>
    cases bytes' using List.reverseRecOn with
    | nil => simp at hlen
    | append_singleton bytes' b' =>
      simp only [List.length_append, List.length_singleton] at hlen hle
      rw [ofBigEndian_concat_of_lt (by omega), ofBigEndian_concat_of_lt (by omega)] at h
      have hb := b.toNat_lt
      have hb' := b'.toNat_lt
      obtain rfl : bytes = bytes' := ih (by omega) (by omega) (by omega)
      obtain rfl : b = b' := UInt8.toNat_inj.1 (by omega)
      rfl

/-! ## Reading a length -/

theorem toNat_lt_of_lt {b : UInt8} (h : b < 0x80) : b.toNat < 128 :=
  UInt8.lt_iff_toNat_lt.1 h

/-- A first byte that is accepted stands for itself or counts one to four more bytes. -/
theorem continuationCount_eq_ok_iff {first : UInt8} {count : Nat} :
    continuationCount first = .ok count ↔
      (first < 0x80 ∧ count = 0) ∨
        (¬ first < 0x80 ∧ count = first.toNat - 0x80 ∧ 0 < count ∧ count ≤ 4) := by
  unfold continuationCount
  by_cases hf : first < 0x80
  · simp [hf, eq_comm]
  · simp only [hf, if_false, false_and, false_or, not_false_eq_true, true_and]
    split
    · simp
      omega
    · split
      · simp
        omega
      · simp only [Except.ok.injEq]
        omega

/-- A length of so many bytes at most is less than two to the 32. -/
theorem byteCount_le_four {n : Nat} (h : n < 2 ^ 32) : byteCount n ≤ 4 :=
  byteCount_le_iff.2 (by simpa using h)

/-- A length is read if as many bytes follow as the first one tells. -/
theorem decode_cons_eq_ok_iff {first : UInt8} {bytes rest : List UInt8} {n : Nat} :
    decode (first :: bytes) = .ok (n, rest) ↔
      ∃ count, continuationCount first = .ok count ∧ count ≤ bytes.length ∧
        n = assemble first (bytes.take count) ∧ rest = bytes.drop count := by
  simp only [decode, bind, Except.bind]
  cases hcount : continuationCount first with
  | error e => simp
  | ok count =>
    simp only [Except.ok.injEq, exists_eq_left']
    split
    · simp
      omega
    · simp only [Except.ok.injEq, Prod.mk.injEq]
      constructor
      · intro h
        rcases h with ⟨rfl, rfl⟩
        exact ⟨by omega, rfl, rfl⟩
      · intro h
        rcases h with ⟨-, rfl, rfl⟩
        exact ⟨rfl, rfl⟩

/-! ## What a length is written as -/

/-- A length in the short form, or in the long form with one to four bytes after the first. -/
inductive Spelled : List UInt8 → Nat → Prop
  | short {b : UInt8} (h : b < 0x80) : Spelled [b] b.toNat
  | long {bytes : List UInt8} (hne : bytes ≠ []) (hlen : bytes.length ≤ 4) :
    Spelled (UInt8.ofNat (0x80 + bytes.length) :: bytes) (ofBigEndian bytes)

theorem toNat_first {k : Nat} (h : k ≤ 4) : (UInt8.ofNat (0x80 + k)).toNat = 0x80 + k :=
  UInt8.toNat_ofNat_of_lt' (show 0x80 + k < 256 by omega)

theorem not_first_lt {k : Nat} (h : k ≤ 4) : ¬ UInt8.ofNat (0x80 + k) < 0x80 := by
  rw [UInt8.lt_iff_toNat_lt, toNat_first h]
  simp

/-- A length is read exactly from what spells it. -/
theorem decode_eq_ok_iff_spelled {bytes rest : List UInt8} {n : Nat} :
    decode bytes = .ok (n, rest) ↔ ∃ spelled, Spelled spelled n ∧ bytes = spelled ++ rest := by
  constructor
  · intro h
    cases bytes with
    | nil => cases h
    | cons first bytes =>
      obtain ⟨count, hcount, hle, rfl, rfl⟩ := decode_cons_eq_ok_iff.1 h
      have htake : (bytes.take count).length = count := by simp [hle]
      rcases continuationCount_eq_ok_iff.1 hcount with ⟨hf, rfl⟩ | ⟨hf, hfirst, hpos, hfour⟩
      · refine ⟨[first], ?_, rfl⟩
        rw [assemble, if_pos hf]
        exact .short hf
      · refine ⟨first :: bytes.take count, ?_, by simp⟩
        have hbyte : first = UInt8.ofNat (0x80 + (bytes.take count).length) := by
          rw [htake, show 0x80 + count = first.toNat by omega, UInt8.ofNat_toNat]
        rw [assemble, if_neg hf]
        conv => arg 1; rw [hbyte]
        exact .long (List.ne_nil_of_length_pos (by omega)) (by omega)
  · rintro ⟨spelled, hspelled, rfl⟩
    cases hspelled with
    | @short b h =>
      exact decode_cons_eq_ok_iff.2 ⟨0, continuationCount_eq_ok_iff.2 (.inl ⟨h, rfl⟩),
        Nat.zero_le _, by rw [assemble, if_pos h], rfl⟩
    | @long bytes hne hlen =>
      have hpos := List.length_pos_of_ne_nil hne
      have hcount : continuationCount (UInt8.ofNat (0x80 + bytes.length)) = .ok bytes.length := by
        refine continuationCount_eq_ok_iff.2 (.inr ⟨not_first_lt hlen, ?_, hpos, hlen⟩)
        rw [toNat_first hlen]
        omega
      rw [List.cons_append]
      refine decode_cons_eq_ok_iff.2 ⟨_, hcount, by simp, ?_, by rw [List.drop_left]⟩
      rw [List.take_left, assemble, if_neg (not_first_lt hlen)]

/-- The shortest encoding of a length spells it. -/
theorem spelled_encode {n : Nat} (h : n < 2 ^ 32) : Spelled (encode n) n := by
  unfold encode
  split
  · next hshort =>
    have hbyte : (UInt8.ofNat n).toNat = n := UInt8.toNat_ofNat_of_lt' (show n < 256 by omega)
    have hlt : UInt8.ofNat n < 0x80 := UInt8.lt_iff_toNat_lt.2 (by simpa [hbyte] using hshort)
    have hspelled := Spelled.short hlt
    rwa [hbyte] at hspelled
  · -- the first byte counts the others, which are four at most
    next hlong =>
    have hlen := length_bigEndian n
    have hpos : 0 < byteCount n := by
      rw [byteCount_pos (by omega)]
      omega
    have hspelled := Spelled.long (List.ne_nil_of_length_pos (by omega))
      (hlen.trans_le (byteCount_le_four h))
    rwa [hlen, ofBigEndian_bigEndian (by omega)] at hspelled

/-- A length that was written is read back, and what follows it is left. -/
theorem decode_encode {n : Nat} (h : n < 2 ^ 32) (rest : List UInt8) :
    decode (encode n ++ rest) = .ok (n, rest) :=
  decode_eq_ok_iff_spelled.2 ⟨_, spelled_encode h, rfl⟩

/-- A length that takes more than four bytes is written, but it is not read back. -/
theorem decode_encode_of_le {n : Nat} (h : 2 ^ 32 ≤ n) (hn : n < 2 ^ 64) (rest : List UInt8) :
    decode (encode n ++ rest) = .error (.lengthTooLarge (byteCount n)) := by
  have hmany : 4 < byteCount n := by
    by_contra hle
    have hlt := byteCount_le_iff.1 (not_lt.1 hle)
    omega
  have hcount : byteCount n ≤ 8 := byteCount_le_iff.2 (by omega)
  have hfirst : (UInt8.ofNat (0x80 + byteCount n)).toNat = 0x80 + byteCount n :=
    UInt8.toNat_ofNat_of_lt' (show 0x80 + byteCount n < 256 by omega)
  have hlong : ¬ UInt8.ofNat (0x80 + byteCount n) < 0x80 := fun hlt => by
    have := toNat_lt_of_lt hlt
    omega
  have hcontinuation : continuationCount (UInt8.ofNat (0x80 + byteCount n)) =
      .error (.lengthTooLarge (byteCount n)) := by
    rw [continuationCount, if_neg hlong, hfirst, Nat.add_sub_cancel_left]
    rw [if_neg (by omega), if_pos hmany]
  rw [encode, if_neg (by omega), List.cons_append, decode, hcontinuation]
  rfl

/-- A length is read without a look at what follows it. -/
theorem decode_append {bytes rest : List UInt8} {n : Nat} (h : decode bytes = .ok (n, rest))
    (tail : List UInt8) : decode (bytes ++ tail) = .ok (n, rest ++ tail) := by
  obtain ⟨spelled, hspelled, rfl⟩ := decode_eq_ok_iff_spelled.1 h
  exact decode_eq_ok_iff_spelled.2 ⟨spelled, hspelled, by rw [List.append_assoc]⟩

/-- What spells a length is not shorter than what is written for it. -/
theorem Spelled.encodedSize_le {spelled : List UInt8} {n : Nat} (h : Spelled spelled n) :
    n < 2 ^ 32 ∧ encodedSize n ≤ spelled.length := by
  cases h with
  | short h =>
    have hlt := toNat_lt_of_lt h
    rw [encodedSize, if_pos hlt]
    exact ⟨by omega, le_rfl⟩
  | @long bytes _ hlen =>
    have hlt := ofBigEndian_lt bytes
    have hpow : 256 ^ bytes.length ≤ 256 ^ 4 := Nat.pow_le_pow_right (by decide) hlen
    refine ⟨by omega, ?_⟩
    have hcount := byteCount_le_iff.2 hlt
    rw [encodedSize, List.length_cons]
    split <;> omega

/-- There is one way to spell a length with so many bytes. -/
theorem Spelled.unique {spelled spelled' : List UInt8} {n n' : Nat} (h : Spelled spelled n)
    (h' : Spelled spelled' n') (hsame : n = n') (hlen : spelled.length = spelled'.length) :
    spelled = spelled' := by
  cases h with
  | @short b hb =>
    cases h' with
    | @short b' hb' => rw [UInt8.toNat_inj.1 hsame]
    | long hne' => exact absurd (List.eq_nil_of_length_eq_zero (Nat.succ.inj hlen).symm) hne'
  | @long bytes hne hle =>
    cases h' with
    | short => exact absurd (List.eq_nil_of_length_eq_zero (Nat.succ.inj hlen)) hne
    | @long bytes' hne' hle' =>
      have hrest : bytes.length = bytes'.length := Nat.succ.inj hlen
      rw [ofBigEndian_inj hrest (by omega) hsame]

/-- A length is spelled with five bytes at most. -/
theorem Spelled.length_le {spelled : List UInt8} {n : Nat} (h : Spelled spelled n) :
    spelled.length ≤ 5 := by
  cases h with
  | short => simp
  | long hne hlen => simpa using Nat.succ_le_succ hlen

/-- What spells a length is what is written for it exactly if nothing shorter spells it. -/
theorem Spelled.eq_encode_iff {spelled : List UInt8} {n : Nat} (h : Spelled spelled n) :
    spelled = encode n ↔ ∀ other, Spelled other n → spelled.length ≤ other.length := by
  obtain ⟨hlt, hle⟩ := h.encodedSize_le
  constructor
  · rintro rfl other hother
    rw [length_encode]
    exact hother.encodedSize_le.2
  · intro hshortest
    have hencode := spelled_encode hlt
    have hmin := hshortest _ hencode
    rw [length_encode] at hmin
    exact h.unique hencode rfl (by rw [length_encode]; omega)

/-- What is accepted as a length is less than two to the 32 and not shorter than what is written
for it. -/
theorem exists_prefix_of_decode {bytes rest : List UInt8} {n : Nat}
    (h : decode bytes = .ok (n, rest)) :
    n < 2 ^ 32 ∧ ∃ head, bytes = head ++ rest ∧ encodedSize n ≤ head.length := by
  obtain ⟨spelled, hspelled, rfl⟩ := decode_eq_ok_iff_spelled.1 h
  obtain ⟨hlt, hle⟩ := hspelled.encodedSize_le
  exact ⟨hlt, spelled, rfl, hle⟩

end Ldap.Ber.Length
