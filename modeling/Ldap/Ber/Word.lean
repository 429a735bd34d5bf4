/-!
# Words of 64 bits and their bytes

Lengths and integers are written from the bytes of a word, most significant first, and read by
shifting bytes into a word at the low end.
-/

namespace Ldap.Ber.Word

/-- The eight bytes of a word, most significant first. -/
def bytes (w : UInt64) : List UInt8 :=
  [(w >>> 56).toUInt8, (w >>> 48).toUInt8, (w >>> 40).toUInt8, (w >>> 32).toUInt8,
    (w >>> 24).toUInt8, (w >>> 16).toUInt8, (w >>> 8).toUInt8, w.toUInt8]

/-- Shifts a byte into a word at the low end. -/
def shiftIn (w : UInt64) (b : UInt8) : UInt64 :=
  w <<< 8 ||| b.toUInt64

theorem toNat_ne_zero {w : UInt64} (h : w ≠ 0) : w.toNat ≠ 0 :=
  fun hzero => h (UInt64.toNat_inj.1 hzero)

theorem toNat_shiftRight_eight (w : UInt64) : (w >>> 8).toNat = w.toNat / 256 := by
  rw [UInt64.toNat_shiftRight]
  exact Nat.shiftRight_eq_div_pow _ _

end Ldap.Ber.Word
