import Ldap.Proofs.Filter.Grammar
import Ldap.Proofs.Filter.Wire

/-!
# Which filters survive as text

Not every filter can be told from its text: an empty part of a value leaves no trace, and an
attribute with a parenthesis in it is none. `Textual` names the filters that a text is read as, and
`parse_text_eq_ok_iff_textual` says that these are the ones that are read back from their own text.
-/

namespace Ldap

open Text (Escape)

/-- An assertion that can be told from its text. -/
def FilterItem.Textual : FilterItem → Prop
  | .compare _ attr _ | .present attr => Description attr
  | .substrings attr initial inner last => Description attr ∧ Filter.Parts initial inner last
  | .extensible rule attr _ dn =>
    (⟨rule, dn⟩ : Filter.MatchHead).Sound ∧ (∀ a ∈ attr, Description a) ∧
      (attr ≠ none ∨ rule ≠ none)

namespace Filter

/-- A filter that can be told from its text. -/
def Textual (f : Filter) : Prop :=
  f.depth ≤ maxDepth ∧ ∀ i ∈ f.items, i.Textual

theorem textual_iff_within {f : Filter} :
    f.Textual ↔ Within FilterItem.Textual (maxDepth + 1) f :=
  and_congr_left' Nat.lt_succ_iff.symm

/-! ## What is read -/

theorem ItemSpelled.textual {cs : List Char} {i : FilterItem} (h : ItemSpelled cs i) :
    i.Textual := by
  cases h with
  | equals hattr hvalue hi =>
    cases i with
    | compare =>
      rcases hi with ⟨-, rfl, -⟩
      exact hattr
    | present =>
      rcases hi with ⟨rfl, -⟩
      exact hattr
    | substrings =>
      rcases hi with ⟨rfl, hparts, -⟩
      exact ⟨hattr, hparts⟩
    | extensible => cases hi
  | ordering _ hattr => exact hattr
  | extensible hhead hattr hsome => exact ⟨hhead, hattr, hsome⟩

theorem GroupSpelled.within {room : Nat} {cs : List Char} {f : Filter}
    (h : GroupSpelled room cs f) : Within FilterItem.Textual room f := by
  induction room generalizing cs f with
  | zero => cases h
  | succ room ih =>
    have hall {texts : List (List Char)} {fs : List Filter}
        (htexts : List.Forall₂ (GroupSpelled room) texts fs) :
        ∀ f ∈ fs, Within FilterItem.Textual room f := by
      induction htexts with
      | nil => simp
      | cons hf _ ih' => exact List.forall_mem_cons.2 ⟨ih hf, ih'⟩
    cases f with
    | and fs =>
      obtain ⟨texts, rfl, htexts⟩ := h
      exact within_and.2 (hall htexts)
    | or fs =>
      obtain ⟨texts, rfl, htexts⟩ := h
      exact within_or.2 (hall htexts)
    | not f =>
      obtain ⟨text, rfl, htext⟩ := h
      exact within_not.2 (ih htext)
    | item i =>
      obtain ⟨text, rfl, htext⟩ := h
      exact within_item.2 htext.textual

/-! ## What is written -/

/-- A byte that is written as it is is a character that needs no escape. -/
theorem plain_of_isPlain {b : UInt8} (h : isPlain b = true) :
    isEscapable (Char.ofNat b.toNat) = false ∧
      String.utf8EncodeChar (Char.ofNat b.toNat) = [b] := by
  have hall : ∀ n : Fin 256, isPlain (UInt8.ofNat n.val) = true →
      isEscapable (Char.ofNat n.val) = false ∧
        String.utf8EncodeChar (Char.ofNat n.val) = [UInt8.ofNat n.val] := by decide +kernel
  have hb := hall ⟨b.toNat, b.toNat_lt⟩
  rw [UInt8.ofNat_toNat] at hb
  exact hb h

/-- A value that was written stands for its bytes, in front of whatever stands for other bytes. -/
theorem Value.valueText_append {cs : List Char} {head : List UInt8} {later : List (List UInt8)}
    (h : Value cs head later) (bytes : List UInt8) :
    Value (valueText bytes ++ cs) (bytes ++ head) later := by
  induction bytes with
  | nil => exact h
  | cons b bytes ih =>
    unfold valueText at ih ⊢
    rw [List.flatMap_cons, List.append_assoc]
    split
    · next hplain =>
      obtain ⟨hchar, hbyte⟩ := plain_of_isPlain hplain
      have hvalue := Value.plain hchar ih
      rw [hbyte] at hvalue
      exact hvalue
    · exact .escape (.digits (Text.Hex.pair?_lowerDigit b)) ih

theorem value_valueText (bytes : List UInt8) : Value (valueText bytes) bytes [] := by
  simpa using Value.nil.valueText_append bytes

/-- Parts that were written with stars between them stand for the parts. -/
theorem value_parts (first : List UInt8) (inner : List (List UInt8)) (last : List UInt8) :
    Value (valueText first ++ '*' :: (inner.flatMap (fun bytes => valueText bytes ++ ['*'])
      ++ valueText last)) first (inner ++ [last]) := by
  induction inner generalizing first with
  | nil => simpa using (Value.star (value_valueText last)).valueText_append first
  | cons bytes inner ih => simpa using (Value.star (ih bytes)).valueText_append first

theorem itemSpelled_itemText {i : FilterItem} (h : i.Textual) : ItemSpelled (itemText i) i := by
  cases i with
  | compare relation attr bytes =>
    by_cases hequal : relation = .equal
    · subst hequal
      have hitem := ItemSpelled.equals h (value_valueText bytes)
        (show Asserts attr bytes [] (.compare .equal attr bytes) from ⟨rfl, rfl, rfl, rfl⟩)
      simpa [itemText, sign] using hitem
    · simpa [itemText] using ItemSpelled.ordering hequal h (value_valueText bytes)
  | present attr =>
    exact .equals h (.star .nil) ⟨rfl, rfl, rfl⟩
  | substrings attr initial inner last =>
    have hitem := ItemSpelled.equals h.1 (value_parts (initial.getD []) inner (last.getD []))
      (show Asserts attr _ _ (.substrings attr initial inner last) from ⟨rfl, h.2, rfl, rfl⟩)
    simpa [itemText] using hitem
  | extensible rule attr bytes dn =>
    rcases h with ⟨hhead, hattr, hsome⟩
    have hdn : isKeyword ['d', 'n'] = true := rfl
    have hitem := ItemSpelled.extensible hhead hattr hsome hdn (value_valueText bytes)
    simpa [itemText, headText, ruleText] using hitem

theorem charsOfAll_eq_flatten (fs : List Filter) : charsOfAll fs = (fs.map chars).flatten := by
  induction fs with
  | nil => rfl
  | cons f fs ih => rw [charsOfAll, ih, List.map_cons, List.flatten_cons]

/-- What a filter is written as spells it. -/
theorem groupSpelled_chars {room : Nat} {f : Filter} (h : Within FilterItem.Textual room f) :
    GroupSpelled room f.chars f := by
  induction room generalizing f with
  | zero => exact absurd h.1 (Nat.not_lt_zero _)
  | succ room ih =>
    have hall {fs : List Filter} (hfs : ∀ f ∈ fs, Within FilterItem.Textual room f) :
        List.Forall₂ (GroupSpelled room) (fs.map chars) fs :=
      List.forall₂_map_left_iff.2 (List.forall₂_same.2 fun f hf => ih (hfs f hf))
    cases f with
    | and fs => exact ⟨fs.map chars, by simp [chars, charsOfAll_eq_flatten], hall (within_and.1 h)⟩
    | or fs => exact ⟨fs.map chars, by simp [chars, charsOfAll_eq_flatten], hall (within_or.1 h)⟩
    | not f => exact ⟨f.chars, by simp [chars], ih (within_not.1 h)⟩
    | item i => exact ⟨itemText i, by simp [chars], itemSpelled_itemText (within_item.1 h)⟩

/-- Whatever text is accepted as a filter, the filter can be told from its text; and a filter is
read back from its own text exactly if it can be told from it. -/
theorem parse_text_eq_ok_iff_textual :
    (∀ s f, parse s = .ok f → f.Textual) ∧ ∀ f, parse f.text = .ok f ↔ f.Textual := by
  have htextual (s : String) (f : Filter) (h : parse s = .ok f) : f.Textual := by
    rcases parse_eq_ok_iff.1 h with hgroup | ⟨i, rfl, hitem⟩
    · exact textual_iff_within.2 hgroup.within
    · exact textual_iff_within.2 (within_item.2 hitem.textual)
  refine ⟨htextual, fun f => ⟨htextual f.text f, fun h => ?_⟩⟩
  refine parse_eq_ok_iff.2 (.inl ?_)
  unfold text
  rw [String.toList_ofList]
  exact groupSpelled_chars (textual_iff_within.1 h)

/-- Parts with an escaped star between stars, no last part, and a match that names the rule `dn`. -/
theorem parse_text_of_stars_and_dn :
    let s := "(&(cn=a\\2A*\\)b*)(!(:DN:dn:=\\28)))"
    let f : Filter := .and [.item (.substrings "cn" (some [0x61, 0x2A]) [[0x29, 0x62]] none),
      .not (.item (.extensible (some "dn") none [0x28] true))]
    parse s = .ok f ∧ f.Textual ∧ parse f.text = .ok f := by
  intro s f
  have hs : parse s = .ok f := by decide +kernel
  have hf := parse_text_eq_ok_iff_textual.1 s f hs
  exact ⟨hs, hf, (parse_text_eq_ok_iff_textual.2 f).2 hf⟩

end Filter
end Ldap
