import Ldap.Dn.Basic
import Ldap.Proofs.Dn.Grammar
import Ldap.Proofs.Text.Place
import Mathlib.Tactic

/-!
# Places in names

Every step of reading a name leaves a suffix of its text or stops at one. So a name is refused at a
position in its text, and the texts that names and relative names keep are pieces of the text.
-/

namespace Ldap.Scan

open Text (Within)

/-- Spaces are taken off the front. -/
theorem suffix_skipSpaces (cs : List Char) : skipSpaces cs <:+ cs :=
  List.dropWhile_suffix _

/-- What is found behind spaces is in the text, and so is what stands behind it and more spaces. -/
theorem suffix_of_skipSpaces_eq {left tail whole : List Char} {c : Char}
    (h : skipSpaces left = c :: tail) (hleft : left <:+ whole) :
    c :: tail <:+ whole ∧ skipSpaces tail <:+ whole := by
  have hcons : c :: tail <:+ whole := h ▸ (suffix_skipSpaces left).trans hleft
  exact ⟨hcons, (suffix_skipSpaces tail).trans ((List.suffix_cons c tail).trans hcons)⟩

theorem suffix_of_escaped {cs rest : List Char} {b : UInt8} (h : escaped cs = .ok (b, rest)) :
    rest <:+ cs := by
  obtain ⟨spelled, -, rfl⟩ := escaped_eq_ok_iff.1 h
  exact List.suffix_append spelled rest

/-- A value without quotes is read from left to right. -/
theorem within_plainValue (cs : List Char) : Within cs (plainValue cs) := by
  fun_induction plainValue cs with
  | case1 => exact List.suffix_refl _
  | case2 => exact List.suffix_refl _
  | case3 => exact List.suffix_refl _
  | case4 tail b after hescaped _ stop hplain _ ih =>
    rw [hplain] at ih
    exact ih.mono ((suffix_of_escaped hescaped).trans (List.suffix_cons _ _))
  | case5 tail b after hescaped _ bytes left hplain _ ih =>
    rw [hplain] at ih
    exact ih.mono ((suffix_of_escaped hescaped).trans (List.suffix_cons _ _))
  | case6 => exact List.suffix_refl _
  | case7 c tail _ _ _ stop hplain ih =>
    rw [hplain] at ih
    exact ih.mono (List.suffix_cons _ _)
  | case8 => exact List.suffix_refl _
  | case9 c tail _ _ _ bytes left hplain _ ih =>
    rw [hplain] at ih
    exact ih.mono (List.suffix_cons _ _)

/-- A quote that is not closed is reported where the value began, which is in the text too. -/
theorem within_quotedValue {whole cs : List Char} (hcs : cs <:+ whole) :
    Within whole (quotedValue whole cs) := by
  fun_induction quotedValue whole cs with
  | case1 => exact List.suffix_refl _
  | case2 => exact (List.suffix_cons _ _).trans hcs
  | case3 => exact hcs
  | case4 tail b after hescaped _ stop hquoted _ ih =>
    have hafter := ((suffix_of_escaped hescaped).trans (List.suffix_cons _ _)).trans hcs
    rw [hquoted] at ih
    exact ih hafter
  | case5 tail b after hescaped _ bytes left hquoted _ ih =>
    have hafter := ((suffix_of_escaped hescaped).trans (List.suffix_cons _ _)).trans hcs
    rw [hquoted] at ih
    exact ih hafter
  | case6 c tail _ _ stop hquoted ih =>
    rw [hquoted] at ih
    exact ih ((List.suffix_cons _ _).trans hcs)
  | case7 c tail _ _ bytes left hquoted ih =>
    rw [hquoted] at ih
    exact ih ((List.suffix_cons _ _).trans hcs)

/-- So is a number sign without digits behind it; other errors are reported behind the digits. -/
theorem within_hexValue {whole cs : List Char} (hcs : cs <:+ whole) :
    Within whole (hexValue whole cs) := by
  have hrest : cs.dropWhile isHexDigit <:+ whole := (List.dropWhile_suffix _).trans hcs
  unfold hexValue
  dsimp only
  repeat' split
  all_goals first
    | exact hrest
    | exact List.suffix_refl whole

theorem within_value (name : String) (cs : List Char) : Within cs (value name cs) := by
  unfold value
  split
  · exact List.suffix_refl _
  · split
    · exact List.suffix_refl _
    split
    · exact within_hexValue (List.suffix_cons _ _)
    split
    · exact within_quotedValue (List.suffix_cons _ _)
    · exact within_plainValue _

theorem within_attributeName (cs : List Char) : Within cs (attributeName cs) := by
  have hrest : cs.dropWhile isNameChar <:+ cs := List.dropWhile_suffix _
  unfold attributeName
  dsimp only
  repeat' split
  all_goals exact hrest

theorem within_part (cs : List Char) : Within cs (part cs) := by
  refine ((within_attributeName _).mono (suffix_skipSpaces cs)).bind fun name rest hrest => ?_
  dsimp only
  split
  · next tail hequals =>
    obtain ⟨-, htail⟩ := suffix_of_skipSpaces_eq hequals hrest
    exact ((within_value name _).mono htail).bind fun _ _ hleft => hleft
  · exact (suffix_skipSpaces rest).trans hrest

/-- The induction is on the text, of which each part leaves less. -/
theorem within_parts (cs : List Char) : Within cs (parts cs) := by
  fun_induction parts cs with
  | case1 cs stop hpart => exact (within_part cs).stop hpart
  | case2 cs p left hpart tail hplus =>
    exact (suffix_of_skipSpaces_eq hplus ((within_part cs).rest hpart)).1
  | case3 cs p left hpart tail hplus _ _ stop hparts ih =>
    obtain ⟨-, htail⟩ := suffix_of_skipSpaces_eq hplus ((within_part cs).rest hpart)
    exact (ih.stop hparts).trans htail
  | case4 cs p left hpart tail hplus _ _ ps rest hparts ih =>
    obtain ⟨-, htail⟩ := suffix_of_skipSpaces_eq hplus ((within_part cs).rest hpart)
    exact (ih.rest hparts).trans htail
  | case5 cs p left hpart => exact (within_part cs).rest hpart

theorem within_relative (cs : List Char) : Within cs (relative cs) :=
  (within_parts cs).bind fun _ _ hrest => hrest

/-- A fault in a text of relative names stands in the text. -/
theorem suffix_of_relatives {cs : List Char} {stop : Stop} (h : relatives cs = .error stop) :
    stop.rest <:+ cs := by
  fun_induction relatives cs generalizing stop with
  | case1 cs stop' hr =>
    cases h
    exact (within_relative cs).stop hr
  | case2 => cases h
  | case3 cs r left hr c tail hsep =>
    cases h
    exact (suffix_of_skipSpaces_eq hsep ((within_relative cs).rest hr)).1
  | case4 cs r left hr c tail hsep _ _ _ stop' hrs ih =>
    cases h
    obtain ⟨-, htail⟩ := suffix_of_skipSpaces_eq hsep ((within_relative cs).rest hr)
    exact (ih hrs).trans htail
  | case5 => cases h
  | case6 cs r left hr c tail hsep =>
    cases h
    exact (suffix_of_skipSpaces_eq hsep ((within_relative cs).rest hr)).1

/-! ## Texts that are kept -/

/-- An attribute name is a piece of the text, from where it is read to what is left. -/
theorem text_of_attributeName {text name : String} {before cs rest : List Char}
    (htext : text.toList = before ++ cs) (h : attributeName cs = .ok (name, rest)) :
    text = String.ofList before ++ name ++ String.ofList rest := by
  obtain ⟨front, rfl, -, rfl, -⟩ := attributeName_eq_ok_iff.1 h
  rw [← String.ofList_append, ← String.ofList_append, List.append_assoc, ← htext,
    String.ofList_toList]

/-- The text of a relative name is a piece of the text, from where it is read to what is left. -/
theorem text_of_relative {text : String} {r : Relative} {before cs rest : List Char}
    (htext : text.toList = before ++ cs) (h : relative cs = .ok (r, rest)) :
    text = String.ofList before ++ r.text ++ String.ofList rest := by
  obtain ⟨front, rfl⟩ := (within_relative cs).rest h
  obtain ⟨⟨ps, left⟩, -, h⟩ := bind_eq_ok_iff.1 h
  cases h
  have hfront : (front ++ rest).take ((front ++ rest).length - rest.length) = front := by simp
  rw [hfront, ← String.ofList_append, ← String.ofList_append, List.append_assoc, ← htext,
    String.ofList_toList]

/-- A text that is refused as a name is refused for a fault between two of its characters. -/
theorem exists_of_distinguishedName_error {text : String} {e : NameError}
    (h : distinguishedName text = .error e) :
    ∃ before after fault, text = before ++ after ∧
      e = .malformed text before.utf8ByteSize fault := by
  simp only [distinguishedName] at h
  split at h
  · cases h
  · cases hstop : relatives (skipSpaces text.toList) with
    | ok rs =>
      rw [hstop] at h
      cases h
    | error stop =>
      rw [hstop] at h
      cases h
      have hin : stop.rest <:+ text.toList :=
        (suffix_of_relatives hstop).trans (suffix_skipSpaces _)
      obtain ⟨before, after, htext, hposition, -⟩ := Text.Stop.exists_position_eq hin
      exact ⟨before, after, stop.fault, htext, by rw [hposition]⟩

end Ldap.Scan

namespace Ldap.Dn

/-- A text is a name exactly if it is spelled as one, and the name is what it spells. Any other text
is refused at a place between two of its characters, and the texts of attribute names and relative
names are pieces of it that begin and end at such places. -/
theorem parse_eq_ok_iff_spelled (text : String) (schema : Option Schema) :
    (∀ d, parse text schema = .ok d ↔
      ∃ rs, Scan.Spelled text.toList rs ∧ d = ⟨text, rs.map (Rdn.ofScanned schema)⟩) ∧
    ((¬ ∃ rs, Scan.Spelled text.toList rs) →
      ∃ before after fault, text = before ++ after ∧
        parse text schema = .error (.malformed text before.utf8ByteSize fault) ∧
        before.utf8ByteSize ≤ text.utf8ByteSize) ∧
    ∀ before cs rest, text.toList = before ++ cs →
      (∀ name, Scan.attributeName cs = .ok (name, rest) →
        text = String.ofList before ++ name ++ String.ofList rest) ∧
      ∀ r, Scan.relative cs = .ok (r, rest) →
        text = String.ofList before ++ r.text ++ String.ofList rest := by
  refine ⟨fun d => ?_, fun hnone => ?_, fun before cs rest htext =>
    ⟨fun name => Scan.text_of_attributeName htext, fun r => Scan.text_of_relative htext⟩⟩
  · simp only [parse, ← Scan.distinguishedName_eq_ok_iff]
    cases Scan.distinguishedName text <;> simp [Except.map, eq_comm]
  · cases h : Scan.distinguishedName text with
    | ok rs => exact absurd ⟨rs, Scan.distinguishedName_eq_ok_iff.1 h⟩ hnone
    | error e =>
      obtain ⟨before, after, fault, htext, rfl⟩ := Scan.exists_of_distinguishedName_error h
      refine ⟨before, after, fault, htext, by rw [parse, h]; rfl, ?_⟩
      rw [htext, String.utf8ByteSize_append]
      exact Nat.le_add_right _ _

/-- An escape that spells half a character is read; a name that ends with a comma is refused, and
the place of the error is between two characters. -/
theorem parse_of_escape_and_of_trailing_comma :
    (∃ rs, Scan.Spelled "o=\\C3x".toList rs ∧
      (⟨"o=\\C3x", [⟨[⟨"o", [0xC3, 0x78]⟩], "o=\\C3x", none⟩]⟩ : Dn) =
        ⟨"o=\\C3x", rs.map (Rdn.ofScanned none)⟩) ∧
    (¬ ∃ rs, Scan.Spelled "cn=é,".toList rs) ∧
    (∃ before after fault, "cn=é," = before ++ after ∧
      parse "cn=é," none = .error (.malformed "cn=é," before.utf8ByteSize fault) ∧
      before.utf8ByteSize ≤ "cn=é,".utf8ByteSize) ∧
    "cn=é," = String.ofList [] ++ "cn" ++ String.ofList ['=', 'é', ','] ∧
    "cn=é," = String.ofList [] ++ "cn=é" ++ String.ofList [','] := by
  have hescape : Scan.relatives "o=\\C3x".toList = .ok [⟨[⟨"o", [0xC3, 0x78]⟩], "o=\\C3x"⟩] := by
    rw [Scan.relatives_eq, Scan.relative, Scan.parts_eq]
    decide +kernel
  have hcomma : Scan.relatives "cn=é,".toList = .error ⟨.trailingSeparator, [',']⟩ := by
    rw [Scan.relatives_eq, Scan.relative, Scan.parts_eq]
    decide +kernel
  have hread := parse_eq_ok_iff_spelled "o=\\C3x" none
  have hrefused := parse_eq_ok_iff_spelled "cn=é," none
  have hnone : ¬ ∃ rs, Scan.Spelled "cn=é,".toList rs := by
    rintro ⟨rs, hrs⟩
    have hok := Scan.distinguishedName_eq_ok_iff.2 hrs
    rw [Scan.distinguishedName, show Scan.skipSpaces "cn=é,".toList = "cn=é,".toList from rfl,
      hcomma] at hok
    cases hok
  refine ⟨(hread.1 _).1 ?_, hnone, hrefused.2.1 hnone, ?_, ?_⟩
  · rw [parse, Scan.distinguishedName,
      show Scan.skipSpaces "o=\\C3x".toList = "o=\\C3x".toList from rfl, hescape]
    rfl
  · exact (hrefused.2.2 [] _ _ rfl).1 "cn" (by decide +kernel)
  · refine (hrefused.2.2 [] _ _ rfl).2 ⟨[⟨"cn", [0xC3, 0xA9]⟩], "cn=é"⟩ ?_
    rw [Scan.relative, Scan.parts_eq]
    decide +kernel

end Ldap.Dn
