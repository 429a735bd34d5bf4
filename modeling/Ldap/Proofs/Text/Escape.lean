import Ldap.Text.Hex
import Mathlib.Tactic

/-!
# Words and escapes

What readers of filters and of names have in common: they take the longest word of characters of one
kind, and they accept a byte as two digits behind a backslash, or a special character for itself.
-/

namespace Ldap.Text

/-! ## Words -/

/-- A text is split where the first character of another kind stands. -/
theorem span_eq_iff {p : Char → Bool} {cs front rest : List Char} :
    cs.takeWhile p = front ∧ cs.dropWhile p = rest ↔
      cs = front ++ rest ∧ (∀ c ∈ front, p c = true) ∧ ∀ c ∈ rest.head?, p c = false := by
  constructor
  · intro h
    rcases h with ⟨rfl, rfl⟩
    refine ⟨List.takeWhile_append_dropWhile.symm, fun c hc => ?_, fun c hc => ?_⟩
    · exact List.all_eq_true.1 List.all_takeWhile c hc
    · have hhead := List.head?_dropWhile_not p cs
      rw [Option.mem_def.1 hc] at hhead
      exact hhead
  · intro h
    rcases h with ⟨rfl, hfront, hrest⟩
    rw [List.takeWhile_append_of_pos hfront, List.dropWhile_append_of_pos hfront]
    cases rest with
    | nil => simp
    | cons c rest =>
      have hc := hrest c rfl
      simp [hc]

/-! ## Digits -/

namespace Hex

theorem digit?_lowerDigit {n : Nat} (h : n < 16) : digit? (lowerDigit n) = some n := by
  have hall : ∀ n : Fin 16, digit? (lowerDigit n) = some n.val := by decide
  exact hall ⟨n, h⟩

/-- A byte that was written as two digits is read back. -/
theorem pair?_lowerDigit (b : UInt8) :
    pair? (lowerDigit (b.toNat / 16)) (lowerDigit (b.toNat % 16)) = some b := by
  have hlt : b.toNat < 256 := b.toNat_lt
  unfold pair?
  rw [digit?_lowerDigit (by omega), digit?_lowerDigit (Nat.mod_lt _ (by decide))]
  show some (UInt8.ofNat (16 * (b.toNat / 16) + b.toNat % 16)) = some b
  rw [Nat.div_add_mod, UInt8.ofNat_toNat]

end Hex

/-! ## Escapes -/

/-- What stands behind a backslash for a byte. -/
inductive Escape (special : Char → Bool) : List Char → UInt8 → Prop
  | digits {high low : Char} {b : UInt8} (hb : Hex.pair? high low = some b) :
    Escape special [high, low] b
  | itself {c : Char} (hc : special c = true) : Escape special [c] (UInt8.ofNat c.toNat)

end Ldap.Text
