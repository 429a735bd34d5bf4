import Ldap.Ber.Integer
import Mathlib.Tactic

/-!
# Integers on the wire

`Integer.encode` writes any number in the fewest bytes that hold it (`length_encode_le_iff`), and
`Integer.value` gives it back (`value_encode`). What the decoders accept has no fewer bytes than the
same number written again.
-/

namespace Ldap.Ber.Integer

/-! ## The value of bytes -/

theorem toNat_ofNat_emod (v : Int) : ((UInt8.ofNat (v % 256).toNat).toNat : Int) = v % 256 := by
  rw [UInt8.toNat_ofNat']
  omega

/-- A byte appended at the end is a digit. -/
theorem value_concat {bytes : List UInt8} (h : bytes ≠ []) (b : UInt8) :
    value (bytes ++ [b]) = value bytes * 256 + b.toNat := by
  cases bytes with
  | nil => exact absurd rfl h
  | cons first rest => simp [value, List.foldl_append]

theorem value_singleton (b : UInt8) : value [b] = signed b := rfl

/-- The byte that a small number is written as has its value. -/
theorem signed_ofNat {v : Int} (h : -128 ≤ v ∧ v < 128) :
    signed (UInt8.ofNat (v % 256).toNat) = v := by
  have hbyte := toNat_ofNat_emod v
  unfold signed
  split
  · next hlt =>
    rw [UInt8.lt_iff_toNat_lt] at hlt
    simp at hlt
    omega
  · next hlt =>
    rw [UInt8.lt_iff_toNat_lt] at hlt
    simp at hlt
    omega

/-- One byte holds numbers from -128 to 127. -/
theorem signed_bounds (b : UInt8) : -128 ≤ signed b ∧ signed b < 128 := by
  have hb := b.toNat_lt
  unfold signed
  split
  · next hlt =>
    rw [UInt8.lt_iff_toNat_lt] at hlt
    simp at hlt
    omega
  · next hlt =>
    rw [UInt8.lt_iff_toNat_lt] at hlt
    simp at hlt
    omega

/-- Some bytes hold numbers between those that their count of bits allows. -/
theorem value_bounds {bytes : List UInt8} {k : Nat} (h : bytes.length = k + 1) :
    -(128 * 256 ^ k : Int) ≤ value bytes ∧ value bytes < 128 * 256 ^ k := by
  -- on the count of the bytes, taking the last one off: the first one has the sign
  induction k generalizing bytes with
  | zero =>
    rcases List.length_eq_one_iff.1 h with ⟨b, rfl⟩
    simpa [value_singleton] using signed_bounds b
  | succ k ih =>
    obtain ⟨front, b, rfl⟩ : ∃ front b, bytes = front ++ [b] :=
      ⟨_, _, (List.dropLast_append_getLast (by rintro rfl; cases h)).symm⟩
    rw [List.length_append, List.length_singleton] at h
    have hfront := ih (Nat.succ.inj h)
    have hb := b.toNat_lt
    rw [value_concat (by rintro rfl; cases h), pow_succ]
    constructor <;> omega

/-! ## Writing a number -/

/-- Even zero takes a byte. -/
theorem encode_ne_nil (v : Int) : encode v ≠ [] := by
  unfold encode
  split <;> simp

/-- The bytes of a number have its value. -/
theorem value_encode (v : Int) : value (encode v) = v := by
  induction v using encode.induct with
  | case1 v h =>
    rw [encode, if_pos h, value_singleton, signed_ofNat h]
  | case2 v h ih =>
    rw [encode, if_neg h, value_concat (encode_ne_nil _), ih, toNat_ofNat_emod]
    omega

/-- A number is written in as few bytes as hold it. -/
theorem length_encode_le_iff {v : Int} {k : Nat} :
    (encode v).length ≤ k + 1 ↔ -(128 * 256 ^ k : Int) ≤ v ∧ v < 128 * 256 ^ k := by
  -- each byte but the last stands for a division by 256, which the bounds are divided by as well
  induction k generalizing v with
  | zero =>
    rw [encode]
    split
    · next h => simpa using h
    · next h =>
      have hpos := List.length_pos_iff.2 (encode_ne_nil (v / 256))
      simp only [List.length_append, List.length_singleton, pow_zero, mul_one]
      omega
  | succ k ih =>
    have hpow : (0 : Int) < 256 ^ k := by positivity
    rw [encode]
    split
    · next h =>
      rw [pow_succ]
      simp only [List.length_singleton]
      omega
    · next h =>
      rw [List.length_append, List.length_singleton, Nat.add_le_add_iff_right, ih, pow_succ]
      omega

/-- No bytes of the same value are fewer than those that are written. -/
theorem length_encode_value_le {bytes : List UInt8} (h : bytes ≠ []) :
    (encode (value bytes)).length ≤ bytes.length := by
  obtain ⟨k, hk⟩ : ∃ k, bytes.length = k + 1 :=
    Nat.exists_eq_succ_of_ne_zero fun hzero => h (List.length_eq_zero_iff.1 hzero)
  rw [hk]
  exact length_encode_le_iff.2 (value_bounds hk)

/-! ## Reading a number -/

/-- Up to eight bytes are read as a number, and it is the one that they stand for. -/
theorem decode_eq_ok_iff {kind : ContentKind} {bytes : List UInt8} {v : Int64} :
    decode kind bytes = .ok v ↔ bytes ≠ [] ∧ bytes.length ≤ 8 ∧ v.toInt = value bytes := by
  unfold decode
  by_cases hnil : bytes = []
  · simp [hnil]
  · rw [if_neg (by simpa using hnil)]
    split
    · simp
      omega
    · next hlen =>
      obtain ⟨k, hk⟩ : ∃ k, bytes.length = k + 1 :=
        Nat.exists_eq_succ_of_ne_zero fun hzero => hnil (List.length_eq_zero_iff.1 hzero)
      have hbounds := value_bounds hk
      -- eight bytes hold no more than 64 bits, so that nothing is cut off
      have hpow : (256 ^ k : Int) ≤ 256 ^ 7 := pow_le_pow_right₀ (by decide) (by omega)
      have hval : (Int64.ofInt (value bytes)).toInt = value bytes :=
        Int64.toInt_ofInt_of_le (by norm_num at *; omega) (by norm_num at *; omega)
      simp only [Except.ok.injEq]
      constructor
      · intro heq
        subst heq
        exact ⟨hnil, by omega, hval⟩
      · intro h
        rcases h with ⟨-, -, hv⟩
        exact Int64.toInt_inj.1 (hval.trans hv.symm)

/-- So they are as a number of 32 bits, which may be spelled with more than four. -/
theorem decode32_eq_ok_iff {kind : ContentKind} {bytes : List UInt8} {v : Int32} :
    decode32 kind bytes = .ok v ↔ bytes ≠ [] ∧ bytes.length ≤ 8 ∧ v.toInt = value bytes := by
  have hv := v.le_toInt
  have hv' := v.toInt_lt
  simp only [decode32, bind, Except.bind]
  cases hdecode : decode kind bytes with
  | error e =>
    simp only [reduceCtorEq, false_iff]
    intro h
    rcases h with ⟨hnil, hlen, heq⟩
    -- what fits into 32 bits would have been accepted with 64
    have hwide : decode kind bytes = .ok (Int64.ofInt v.toInt) :=
      decode_eq_ok_iff.2 ⟨hnil, hlen, by
        rw [Int64.toInt_ofInt_of_le (by omega) (by omega), heq]⟩
    rw [hdecode] at hwide
    cases hwide
  | ok w =>
    rcases decode_eq_ok_iff.1 hdecode with ⟨hnil, hlen, hw⟩
    have hmin : Int32.minValue.toInt = -2 ^ 31 := by decide
    have hmax : Int32.maxValue.toInt = 2 ^ 31 - 1 := by decide
    simp only [hmin, hmax]
    split
    · next hw32 =>
      have hofInt : (Int32.ofInt w.toInt).toInt = w.toInt :=
        Int32.toInt_ofInt_of_le (by omega) (by omega)
      simp only [Except.ok.injEq]
      constructor
      · intro heq
        subst heq
        exact ⟨hnil, hlen, hofInt.trans hw⟩
      · intro h
        rcases h with ⟨-, -, heq⟩
        exact Int32.toInt_inj.1 (by rw [hofInt, hw, heq])
    · simp only [reduceCtorEq, false_iff]
      intro h
      rcases h with ⟨-, -, heq⟩
      omega

/-- A 64-bit number that was written is read back. -/
theorem decode_encode (kind : ContentKind) (v : Int64) : decode kind (encode v.toInt) = .ok v := by
  have hv := v.le_toInt
  have hv' := v.toInt_lt
  refine decode_eq_ok_iff.2 ⟨encode_ne_nil _, ?_, (value_encode _).symm⟩
  exact length_encode_le_iff.2 ⟨by norm_num at *; omega, by norm_num at *; omega⟩

/-- A 32-bit number that was written is read back. -/
theorem decode32_encode (kind : ContentKind) (v : Int32) :
    decode32 kind (encode v.toInt) = .ok v := by
  have hv := v.le_toInt
  have hv' := v.toInt_lt
  refine decode32_eq_ok_iff.2 ⟨encode_ne_nil _, ?_, (value_encode _).symm⟩
  have hfour : (encode v.toInt).length ≤ 3 + 1 :=
    length_encode_le_iff.2 ⟨by norm_num at *; omega, by norm_num at *; omega⟩
  omega

/-- A number that was read is written in no more bytes. -/
theorem length_encode_le_of_decode {kind : ContentKind} {bytes : List UInt8} {v : Int64}
    (h : decode kind bytes = .ok v) : (encode v.toInt).length ≤ bytes.length := by
  rcases decode_eq_ok_iff.1 h with ⟨hnil, -, hv⟩
  rw [hv]
  exact length_encode_value_le hnil

theorem length_encode_le_of_decode32 {kind : ContentKind} {bytes : List UInt8} {v : Int32}
    (h : decode32 kind bytes = .ok v) : (encode v.toInt).length ≤ bytes.length := by
  rcases decode32_eq_ok_iff.1 h with ⟨hnil, -, hv⟩
  rw [hv]
  exact length_encode_value_le hnil

end Ldap.Ber.Integer
