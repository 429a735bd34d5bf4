import Ldap.Ber.Word
import Ldap.Proofs.Ber.Length
import Mathlib.Data.Nat.Bitwise
import Mathlib.Data.Nat.Digits.Lemmas
import Mathlib.Tactic

/-!
# Numbers in words of 64 bits

Lengths and integers are written from the bytes of a word, and read by shifting bytes into a word.
Both are related here to the numbers that the bytes spell: a word is spelled by its eight bytes
(`Word.unsigned_bytes`), and to shift a byte in is to append a digit, as far as a word holds it
(`Word.toNat_shiftIn`).
-/

namespace Ldap.Ber

/-! ## The number that bytes spell -/

/-- The number that bytes spell, most significant first. -/
def unsigned (bytes : List UInt8) : Nat :=
  Nat.ofDigits 256 (bytes.reverse.map UInt8.toNat)

/-- One byte more multiplies what the bytes before it stand for by 256. -/
theorem unsigned_concat (bytes : List UInt8) (b : UInt8) :
    unsigned (bytes ++ [b]) = unsigned bytes * 256 + b.toNat := by
  rw [unsigned, List.reverse_append, List.reverse_singleton, List.singleton_append, List.map_cons,
    Nat.ofDigits_cons, unsigned]
  omega

/-- The first byte counts for as many numbers as the others can spell. -/
theorem unsigned_cons (b : UInt8) (bytes : List UInt8) :
    unsigned (b :: bytes) = b.toNat * 256 ^ bytes.length + unsigned bytes := by
  rw [unsigned, List.reverse_cons, List.map_append, Nat.ofDigits_append, List.length_map,
    List.length_reverse, List.map_singleton, Nat.ofDigits_singleton, unsigned]
  ring

theorem digits_lt (bytes : List UInt8) : ∀ d ∈ bytes.reverse.map UInt8.toNat, d < 256 := by
  intro d hd
  obtain ⟨b, -, rfl⟩ := List.mem_map.1 hd
  exact b.toNat_lt

/-- Bytes spell less than a power of 256. -/
theorem unsigned_lt (bytes : List UInt8) : unsigned bytes < 256 ^ bytes.length := by
  have hlt := Nat.ofDigits_lt_base_pow_length (by decide) (digits_lt bytes)
  rwa [List.length_map, List.length_reverse] at hlt

/-- Bytes that spell the same number are the same if they are equally many. -/
theorem unsigned_inj {bytes bytes' : List UInt8} (hlen : bytes.length = bytes'.length)
    (h : unsigned bytes = unsigned bytes') : bytes = bytes' := by
  have hdigits := Nat.ofDigits_inj_of_len_eq (by decide) (by simpa using hlen) (digits_lt bytes)
    (digits_lt bytes') h
  have hinj : Function.Injective UInt8.toNat := fun _ _ hab => UInt8.toNat_inj.1 hab
  exact List.reverse_injective (hinj.list_map hdigits)

/-! ## The bits of a byte -/

theorem and_0x80_eq_zero_iff (b : UInt8) : b &&& 0x80 = 0 ↔ b < 0x80 := by
  have hb := b.toNat_lt
  have hbit : (b &&& 0x80).toNat = (b.toNat.testBit 7).toNat * 2 ^ 7 := Nat.and_two_pow b.toNat 7
  rw [← UInt8.toNat_inj, hbit, Nat.testBit_eq_decide_div_mod_eq, UInt8.lt_iff_toNat_lt]
  show _ = 0 ↔ b.toNat < 128
  by_cases h : b.toNat / 2 ^ 7 % 2 = 1
  · rw [decide_eq_true h]
    simp only [Bool.toNat_true]
    omega
  · rw [decide_eq_false h]
    simp only [Bool.toNat_false]
    omega

theorem toNat_and_0x7F (b : UInt8) : (b &&& 0x7F).toNat = b.toNat % 128 :=
  Nat.and_two_pow_sub_one_eq_mod b.toNat 7

/-! ## Words -/

namespace Word

/-- The eight bytes of a word spell it. -/
theorem unsigned_bytes (w : UInt64) : unsigned (bytes w) = w.toNat := by
  have hw := w.toNat_lt
  have hbyte (s : UInt64) (hs : s.toNat < 64) :
      (w >>> s).toUInt8.toNat = w.toNat / 2 ^ s.toNat % 256 := by
    rw [UInt64.toNat_toUInt8, UInt64.toNat_shiftRight, Nat.mod_eq_of_lt hs,
      Nat.shiftRight_eq_div_pow]
  simp only [bytes, unsigned, List.reverse_cons, List.reverse_nil, List.nil_append,
    List.cons_append, List.map_cons, List.map_nil, Nat.ofDigits_cons, Nat.ofDigits_nil]
  rw [hbyte 56 (by decide), hbyte 48 (by decide), hbyte 40 (by decide), hbyte 32 (by decide),
    hbyte 24 (by decide), hbyte 16 (by decide), hbyte 8 (by decide), UInt64.toNat_toUInt8]
  show w.toNat % 2 ^ 8 + 256 * (w.toNat / 2 ^ 8 % 256 + 256 * (w.toNat / 2 ^ 16 % 256 +
    256 * (w.toNat / 2 ^ 24 % 256 + 256 * (w.toNat / 2 ^ 32 % 256 + 256 * (w.toNat / 2 ^ 40 % 256 +
    256 * (w.toNat / 2 ^ 48 % 256 + 256 * (w.toNat / 2 ^ 56 % 256 + 256 * 0))))))) = w.toNat
  omega

/-- To shift a byte in is to append a digit, as far as a word holds it. -/
theorem toNat_shiftIn (w : UInt64) (b : UInt8) :
    (shiftIn w b).toNat = (w.toNat * 256 + b.toNat) % 2 ^ 64 := by
  have hb : b.toNat < 2 ^ 8 := b.toNat_lt
  -- the high byte falls out, so that the others are multiplied
  have hshift : (w <<< 8).toNat = (w.toNat % 2 ^ 56) <<< 8 := by
    rw [UInt64.toNat_shiftLeft]
    show (w.toNat <<< 8) % 2 ^ 64 = _
    rw [Nat.shiftLeft_eq, Nat.shiftLeft_eq]
    omega
  rw [shiftIn, UInt64.toNat_or, UInt8.toNat_toUInt64, hshift, ← Nat.shiftLeft_add_eq_or_of_lt hb,
    Nat.shiftLeft_eq]
  omega

/-- Bytes that are shifted into an empty word are assembled as those of a length are. -/
theorem toNat_foldl_shiftIn (bytes : List UInt8) :
    (bytes.foldl shiftIn 0).toNat = Length.ofBigEndian bytes := by
  have hstep (w : UInt64) (b : UInt8) :
      (w.toNat * 256 + b.toNat) % UInt64.size = (shiftIn w b).toNat := (toNat_shiftIn w b).symm
  exact (List.foldl_hom UInt64.toNat hstep).symm

end Word
end Ldap.Ber
