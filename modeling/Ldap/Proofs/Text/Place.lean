import Ldap.Text.Stop

/-!
# Places in a text

A reader leaves a suffix of the text it reads, and a fault stands at a suffix as well. So the
position of a fault is the size of a part of the text that ends between two characters.
-/

namespace Ldap.Text

/-- The bytes of the characters are those of the text. -/
theorem byteSize_eq_utf8ByteSize (cs : List Char) :
    byteSize cs = (String.ofList cs).utf8ByteSize := by
  induction cs with
  | nil => rfl
  | cons c cs ih =>
    rw [byteSize, String.ofList_cons, String.utf8ByteSize_append, String.utf8ByteSize_singleton,
      ← ih]

theorem byteSize_append (cs ds : List Char) : byteSize (cs ++ ds) = byteSize cs + byteSize ds := by
  simp only [byteSize_eq_utf8ByteSize, String.ofList_append, String.utf8ByteSize_append]

variable {φ α β : Type}

/-- The position of a fault is the size of what stands before it. -/
theorem Stop.position_eq {stop : Stop φ} {text : String} {before : List Char}
    (h : text.toList = before ++ stop.rest) :
    stop.position text = (String.ofList before).utf8ByteSize := by
  rw [position, h, byteSize_append, Nat.add_sub_cancel, byteSize_eq_utf8ByteSize]

/-- A fault in a text stands between two of its characters. -/
theorem Stop.exists_position_eq {stop : Stop φ} {text : String} (h : stop.rest <:+ text.toList) :
    ∃ before after, text = before ++ after ∧ stop.position text = before.utf8ByteSize ∧
      before.utf8ByteSize ≤ text.utf8ByteSize := by
  obtain ⟨before, hbefore⟩ := h
  have htext : text = String.ofList before ++ String.ofList stop.rest := by
    rw [← String.ofList_append, hbefore, String.ofList_toList]
  refine ⟨_, _, htext, position_eq hbefore.symm, ?_⟩
  rw [htext, String.utf8ByteSize_append]
  exact Nat.le_add_right _ _

/-- What a reader leaves of a text, or the place of its fault, is in the text. -/
def Within (whole : List Char) : Except (Stop φ) (α × List Char) → Prop
  | .ok (_, rest) => rest <:+ whole
  | .error stop => stop.rest <:+ whole

/-- What stops within a part of a text stops within the text. -/
theorem Within.mono {cs whole : List Char} {x : Except (Stop φ) (α × List Char)}
    (h : Within cs x) (hcs : cs <:+ whole) : Within whole x := by
  cases x with
  | error stop => exact List.IsSuffix.trans h hcs
  | ok found => exact List.IsSuffix.trans h hcs

theorem Within.rest {whole rest : List Char} {x : Except (Stop φ) (α × List Char)} {a : α}
    (h : Within whole x) (hx : x = .ok (a, rest)) : rest <:+ whole := by
  subst hx
  exact h

/-- The place at which a scanner stops with an error is a place in the text. -/
theorem Within.stop {whole : List Char} {x : Except (Stop φ) (α × List Char)} {stop : Stop φ}
    (h : Within whole x) (hx : x = .error stop) : stop.rest <:+ whole := by
  subst hx
  exact h

/-- A scanner that goes on where another one ends stays within the text. -/
theorem Within.bind {whole : List Char} {x : Except (Stop φ) (α × List Char)}
    {f : α × List Char → Except (Stop φ) (β × List Char)} (hx : Within whole x)
    (hf : ∀ a rest, rest <:+ whole → Within whole (f (a, rest))) : Within whole (x >>= f) := by
  cases x with
  | error stop => exact hx
  | ok found => exact hf found.1 found.2 hx

end Ldap.Text
