import Ldap.Text.Blank
import Ldap.Text.Decimal
import Mathlib.Tactic

/-!
# Decimal numbers that were written

A whole number in decimal digits is read back, and blanks around it do not matter since it has none
itself.
-/

namespace Ldap.Text

/-! ## Text without blanks -/

theorem dropWhile_isBlank {cs : List Char} (h : ∀ c ∈ cs, isBlank c = false) :
    cs.dropWhile isBlank = cs := by
  cases cs with
  | nil => rfl
  | cons c cs => rw [List.dropWhile_cons_of_neg (by simp [h c List.mem_cons_self])]

/-- There is nothing to take off a text without blanks. -/
theorem trim_of_not_blank {cs : List Char} (h : ∀ c ∈ cs, isBlank c = false) : trim cs = cs := by
  have hreverse : ∀ c ∈ cs.reverse, isBlank c = false := fun c hc => h c (List.mem_reverse.1 hc)
  rw [trim, dropWhile_isBlank h, dropWhile_isBlank hreverse, List.reverse_reverse]

theorem isBlank_of_isDigit {c : Char} (h : c.isDigit = true) : isBlank c = false := by
  simp only [Char.isDigit, Bool.and_eq_true, decide_eq_true_eq, UInt32.le_iff_toNat_le] at h
  change 48 ≤ c.toNat ∧ c.toNat ≤ 57 at h
  simp only [isBlank, blankRanges, List.any_cons, List.any_nil, Bool.or_false, Bool.or_eq_false_iff,
    Bool.and_eq_false_iff, decide_eq_false_iff_not]
  omega

namespace Decimal

/-! ## Digits -/

theorem isDigit_of_mem_toDigits {n : Nat} {c : Char} (h : c ∈ Nat.toDigits 10 n) :
    c.isDigit = true :=
  Nat.isDigit_of_mem_toDigits (by decide) (by decide) h

/-- The decimal digits of a number are read as this number. -/
theorem natural?_toDigits (n : Nat) : natural? (Nat.toDigits 10 n) = some n := by
  have hdigits : (Nat.toDigits 10 n).all Char.isDigit = true :=
    List.all_eq_true.2 fun c hc => isDigit_of_mem_toDigits hc
  have hvalue : value (Nat.toDigits 10 n) = n := Nat.ofDigitChars_ten_toDigits
  rw [natural?, hdigits, hvalue]
  simp

/-! ## Signs -/

/-- What is written for a number: its digits, behind a sign if it is negative. -/
theorem toList_toString (v : Int) :
    (toString v).toList =
      if 0 ≤ v then Nat.toDigits 10 v.toNat else '-' :: Nat.toDigits 10 (-v).toNat := by
  rw [Int.toString_eq_repr, Int.repr_eq_if]
  split
  · rw [Nat.repr_eq_ofList_toDigits, String.toList_ofList]
  · have hsign : "-".toList = ['-'] := rfl
    rw [Nat.repr_eq_ofList_toDigits, String.toList_append, hsign, String.toList_ofList]
    rfl

/-- A number in decimal has no blank in it, with its sign or without. -/
theorem isBlank_of_mem_toString {v : Int} {c : Char} (h : c ∈ (toString v).toList) :
    isBlank c = false := by
  rw [toList_toString] at h
  split at h
  · exact isBlank_of_isDigit (isDigit_of_mem_toDigits h)
  · rcases List.mem_cons.1 h with rfl | h
    · rfl
    · exact isBlank_of_isDigit (isDigit_of_mem_toDigits h)

/-- Digits alone have no sign in front of them. -/
theorem integer?_of_isDigit {cs : List Char} (h : ∀ c ∈ cs, c.isDigit = true) :
    integer? cs = (natural? cs).map fun n => (n : Int) := by
  unfold integer?
  split
  · exact absurd (h '-' List.mem_cons_self) (by decide)
  · exact absurd (h '+' List.mem_cons_self) (by decide)
  · rfl

/-- A number in decimal is read as this number. -/
theorem integer?_toString (v : Int) : integer? (toString v).toList = some v := by
  rw [toList_toString]
  split
  · rw [integer?_of_isDigit fun c => isDigit_of_mem_toDigits, natural?_toDigits]
    show some (v.toNat : Int) = some v
    rw [Int.toNat_of_nonneg ‹_›]
  · rw [integer?, natural?_toDigits]
    show some (-((-v).toNat : Int)) = some v
    rw [Int.toNat_of_nonneg (by omega), neg_neg]

/-- A number of 32 bits is read back, and there are no blanks around it. -/
theorem int32?_trim_toString (v : Int32) : int32? (trim (toString v.toInt).toList) = some v := by
  rw [trim_of_not_blank fun c => isBlank_of_mem_toString, int32?, integer?_toString]
  simp only
  rw [if_pos ⟨v.minValue_le_toInt, v.toInt_le⟩, Int32.ofInt_toInt]

end Decimal
end Ldap.Text
