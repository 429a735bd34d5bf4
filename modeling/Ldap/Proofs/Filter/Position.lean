import Ldap.Proofs.Filter.Grammar
import Ldap.Proofs.Text.Place
import Mathlib.Tactic

/-!
# Places in filter texts

Every step of reading a filter leaves a suffix of its text or stops at one, stars included, since a
value keeps for each star the text from there on. With the grammar this says all of what is read:
`parse_spelled_or_refused` gives the filter of each text that spells one, and a position in the text
for each other.
-/

namespace Ldap.Filter

open Text (Within)

/-! ## Values -/

/-- An escape is taken off the front. -/
theorem suffix_of_escaped {cs rest : List Char} {b : UInt8} (h : escaped cs = some (b, rest)) :
    rest <:+ cs := by
  obtain ⟨spelled, -, rfl⟩ := escaped_eq_some_iff.1 h
  exact List.suffix_append spelled rest

/-- A pattern is read star by star. -/
theorem within_pattern (inGroup : Bool) (cs : List Char) : Within cs (pattern inGroup cs) := by
  fun_induction pattern inGroup cs with
  | case1 => exact List.suffix_refl _
  | case2 => exact List.suffix_refl _
  | case3 => exact List.suffix_refl _
  | case4 => exact List.suffix_refl _
  | case5 tail b after hescaped _ stop hpattern _ _ ih =>
    rw [hpattern] at ih
    exact ih.mono ((suffix_of_escaped hescaped).trans (List.suffix_cons _ _))
  | case6 tail b after hescaped _ p left hpattern _ _ ih =>
    rw [hpattern] at ih
    exact ih.mono ((suffix_of_escaped hescaped).trans (List.suffix_cons _ _))
  | case7 c tail _ _ _ stop hpattern ih =>
    rw [hpattern] at ih
    exact ih.mono (List.suffix_cons _ _)
  | case8 tail p left hpattern _ _ _ ih =>
    rw [hpattern] at ih
    exact ih.mono (List.suffix_cons _ _)
  | case9 c tail _ _ _ p left hpattern _ ih =>
    rw [hpattern] at ih
    exact ih.mono (List.suffix_cons _ _)

/-- The texts from the stars on, which a value keeps for its faults. -/
theorem suffix_of_mem_later {inGroup : Bool} {cs rest : List Char} {p : Pattern}
    (h : pattern inGroup cs = .ok (p, rest)) : ∀ star ∈ p.later, star.1 <:+ cs := by
  fun_induction pattern inGroup cs generalizing p rest with
  | case1 =>
    cases h
    simp
  | case2 =>
    cases h
    simp
  | case3 => cases h
  | case4 => cases h
  | case5 => cases h
  | case6 tail b after hescaped _ p' left hpattern _ _ ih =>
    cases h
    have hafter : after <:+ '\\' :: tail :=
      (suffix_of_escaped hescaped).trans (List.suffix_cons _ _)
    exact fun star hstar => (ih hpattern star hstar).trans hafter
  | case7 => cases h
  | case8 tail p' left hpattern _ _ _ ih =>
    cases h
    refine List.forall_mem_cons.2 ⟨List.suffix_refl _, fun star hstar => ?_⟩
    exact (ih hpattern star hstar).trans (List.suffix_cons _ _)
  | case9 c tail _ _ _ p' left hpattern _ ih =>
    cases h
    exact fun star hstar => (ih hpattern star hstar).trans (List.suffix_cons _ _)

theorem within_plainValue (inGroup : Bool) (cs : List Char) :
    Within cs (plainValue inGroup cs) := by
  unfold plainValue
  cases hpattern : pattern inGroup cs with
  | error stop => exact (within_pattern inGroup cs).stop hpattern
  | ok found =>
    obtain ⟨⟨head, stars⟩, rest⟩ := found
    cases stars with
    | nil => exact (within_pattern inGroup cs).rest hpattern
    | cons star stars => exact suffix_of_mem_later hpattern star List.mem_cons_self

/-! ## Assertions -/

/-- Parts of a value are refused at a star. -/
theorem exists_of_starParts_error {stars : List (List Char × List UInt8)} {stop : Stop}
    (h : starParts stars = .error stop) : ∃ star ∈ stars, stop.rest = star.1 := by
  fun_induction starParts stars with
  | case1 => cases h
  | case2 => cases h
  | case3 _ bytes star after later =>
    cases h
    exact ⟨(star, after), by simp, rfl⟩
  | case4 _ bytes star after later _ ih =>
    cases hrest : starParts ((star, after) :: later) with
    | ok parts =>
      rw [hrest] at h
      cases h
    | error stop' =>
      rw [hrest] at h
      cases h
      obtain ⟨found, hfound, heq⟩ := ih hrest
      exact ⟨found, List.mem_cons_of_mem _ hfound, heq⟩

/-- A pattern is refused at a star that stands right behind another one. -/
theorem exists_of_ofPattern_error {attr : String} {p : Pattern} {stop : Stop}
    (h : ofPattern attr p = .error stop) : ∃ star ∈ p.later, stop.rest = star.1 := by
  unfold ofPattern at h
  split at h
  · cases h
  · cases h
  · cases hparts : starParts p.later with
    | ok parts =>
      rw [hparts] at h
      cases h
    | error stop' =>
      rw [hparts] at h
      cases h
      exact exists_of_starParts_error hparts

theorem within_matchHead {found : MatchHead} {fuel : Nat} {cs whole : List Char}
    (hcs : cs <:+ whole) : Within whole (matchHead found fuel cs) := by
  have hrest : cs.drop 1 <:+ whole := (List.drop_suffix 1 cs).trans hcs
  induction fuel generalizing found cs with
  | zero =>
    unfold matchHead
    split
    · next rest heq =>
      rw [heq] at hrest
      exact (List.suffix_cons _ _).trans hrest
    · exact hrest
    · next heq _ => cases heq
  | succ fuel ih =>
    have hafter : (cs.drop 1).dropWhile isDescriptionChar <:+ whole :=
      (List.dropWhile_suffix _).trans hrest
    have hnext := (List.drop_suffix 1 ((cs.drop 1).dropWhile isDescriptionChar)).trans hafter
    unfold matchHead
    split
    · next rest heq =>
      rw [heq] at hrest
      exact (List.suffix_cons _ _).trans hrest
    · exact hrest
    · next heq _ =>
      cases heq
      dsimp only
      split
      · exact hafter
      split
      · exact hrest
      split
      · exact ih hafter hnext
      · exact ih hafter hnext

/-- A match without a rule and without an attribute is reported where it began. -/
theorem within_extensible {inGroup : Bool} {attr : String} {cs whole : List Char}
    (hcs : cs <:+ whole) : Within whole (extensible inGroup whole attr cs) := by
  refine (within_matchHead hcs).bind fun head rest hrest => ?_
  dsimp only
  split
  · exact List.suffix_refl _
  · exact ((within_plainValue inGroup rest).mono hrest).bind fun _ _ hleft => hleft

theorem within_assertion (inGroup : Bool) (cs : List Char) : Within cs (assertion inGroup cs) := by
  have hrest : cs.dropWhile isDescriptionChar <:+ cs := List.dropWhile_suffix _
  unfold assertion
  dsimp only
  split
  · exact within_extensible hrest
  split
  · exact List.suffix_refl _
  split
  · exact hrest
  · next value heq =>
    have hvalue : value <:+ cs := (List.suffix_cons '=' value).trans (heq ▸ hrest)
    cases hpattern : pattern inGroup value with
    | error stop => exact ((within_pattern inGroup value).stop hpattern).trans hvalue
    | ok found =>
      obtain ⟨p, after⟩ := found
      cases hitem : ofPattern (String.ofList (cs.takeWhile isDescriptionChar)) p with
      | error stop =>
        obtain ⟨star, hstar, hstop⟩ := exists_of_ofPattern_error hitem
        have hplace := (suffix_of_mem_later hpattern star hstar).trans hvalue
        rw [← hstop] at hplace
        simp only [hitem, bind, Except.bind]
        exact hplace
      | ok i =>
        simp only [hitem, bind, Except.bind]
        exact ((within_pattern inGroup value).rest hpattern).trans hvalue
  · next c more heq =>
    split
    · exact hrest
    split
    · next value =>
      have hvalue : value <:+ cs :=
        ((List.suffix_cons '=' value).trans (List.suffix_cons _ _)).trans (heq ▸ hrest)
      exact ((within_plainValue inGroup value).mono hvalue).bind fun _ _ hleft => hleft
    · exact hrest

/-! ## Groups -/

theorem within_close {f : Filter} {whole cs : List Char} (hcs : cs <:+ whole) :
    Within whole (close whole f cs) := by
  cases cs with
  | nil => exact List.suffix_refl _
  | cons c cs =>
    simp only [close]
    split
    · exact (List.suffix_cons _ _).trans hcs
    · exact hcs

/-- The induction is on the fuel, which is as great as the text. -/
theorem within_groups {read : List Char → Except Stop (Filter × List Char)}
    (hread : ∀ cs, Within cs (read cs)) (fuel : Nat) (cs : List Char) :
    Within cs (groups read fuel cs) := by
  induction fuel generalizing cs with
  | zero => exact List.suffix_refl _
  | succ fuel ih =>
    unfold groups
    split
    · next heq =>
      cases heq
      refine (hread _).bind fun f rest hrest => ?_
      dsimp only
      exact ((ih rest).mono hrest).bind fun _ _ hleft => hleft
    · exact List.suffix_refl _

/-- The induction is on the room that is left for filters in filters. -/
theorem within_group (room : Nat) (cs : List Char) : Within cs (group room cs) := by
  induction room generalizing cs with
  | zero => exact List.suffix_refl _
  | succ room ih =>
    have hdrop : cs.drop 1 <:+ cs := List.drop_suffix 1 cs
    have hgroups {sign : Char} {tail : List Char} (heq : cs.drop 1 = sign :: tail)
        (make : List Filter → Filter) :
        Within cs (groups (group room) tail.length tail >>= fun p => close cs (make p.1) p.2) := by
      have htail : tail <:+ cs := (List.suffix_cons sign tail).trans (heq ▸ hdrop)
      exact ((within_groups ih _ tail).mono htail).bind fun _ _ hleft => within_close hleft
    unfold group
    split
    · exact List.suffix_refl _
    · next heq => exact hgroups heq .and
    · next heq => exact hgroups heq .or
    · next tail heq =>
      have htail : tail <:+ cs := (List.suffix_cons '!' tail).trans (heq ▸ hdrop)
      split
      · exact ((ih tail).mono htail).bind fun _ _ hleft => within_close hleft
      · exact htail
    · exact ((within_assertion true _).mono hdrop).bind fun _ _ hleft => within_close hleft

/-- Where something follows a filter, the place of the fault is in the text. -/
theorem suffix_of_trailing {α : Type} {cs : List Char} {x : Except Stop (α × List Char)}
    {stop : Stop} (make : α → Filter) (hx : Within cs x)
    (h : (x >>= fun p => if p.2.isEmpty then .ok (make p.1) else .error ⟨.trailing, p.2⟩) =
      Except.error stop) : stop.rest <:+ cs := by
  cases x with
  | error stop' =>
    cases h
    exact hx
  | ok found =>
    simp only [bind, Except.bind] at h
    split at h
    · cases h
    · cases h
      exact hx

/-- A text that is refused as a filter is refused at a place in it. -/
theorem suffix_of_scan {cs : List Char} {stop : Stop} (h : scan cs = .error stop) :
    stop.rest <:+ cs := by
  unfold scan at h
  dsimp only at h
  split at h
  · cases h
    exact List.suffix_refl _
  · exact suffix_of_trailing id (within_group _ _) h
  · exact suffix_of_trailing .item (within_assertion false _) h

/-! ## The grammar of all texts -/

/-- A text spells a filter: a group, around none of whose groups more than `maxDepth` others stand,
or an assertion without parentheses. -/
def Spelled (cs : List Char) (f : Filter) : Prop :=
  GroupSpelled (maxDepth + 1) cs f ∨ ∃ i, f = .item i ∧ ItemSpelled cs i

/-- A text is accepted exactly if it spells a filter, which is then the one that is read. Any other
text is refused as no filter, at a position between two of its characters. -/
theorem parse_spelled_or_refused (text : String) :
    (∀ f, parse text = .ok f ↔ Spelled text.toList f) ∧
    ((¬ ∃ f, Spelled text.toList f) →
      ∃ before after fault, text = before ++ after ∧
        parse text = .error (.malformedFilter text before.utf8ByteSize fault) ∧
        before.utf8ByteSize ≤ text.utf8ByteSize) := by
  have hiff (f : Filter) : parse text = .ok f ↔ Spelled text.toList f := parse_eq_ok_iff
  refine ⟨hiff, fun hnone => ?_⟩
  cases hscan : scan text.toList with
  | ok f =>
    have hparse : parse text = .ok f := by rw [parse, hscan]
    exact absurd ⟨f, (hiff f).1 hparse⟩ hnone
  | error stop =>
    obtain ⟨before, after, htext, hposition, hle⟩ :=
      Text.Stop.exists_position_eq (suffix_of_scan hscan)
    refine ⟨before, after, stop.fault, htext, ?_, hle⟩
    rw [← hposition, parse, hscan]

/-- A match of which the keyword is in capitals and the value is an escaped star, and a value of two
bytes with a parenthesis after it. -/
theorem parse_of_keyword_and_of_parenthesis :
    let f : Filter := .item (.extensible (some "2.5") none [0x2A] true)
    parse "(:DN:2.5:=\\*)" = .ok f ∧ Spelled "(:DN:2.5:=\\*)".toList f ∧
      (¬ ∃ f, Spelled "(cn=é(x)".toList f) ∧
      ∃ before after fault, "(cn=é(x)" = before ++ after ∧
        parse "(cn=é(x)" = .error (.malformedFilter "(cn=é(x)" before.utf8ByteSize fault) ∧
        before.utf8ByteSize ≤ "(cn=é(x)".utf8ByteSize := by
  intro f
  have hread : parse "(:DN:2.5:=\\*)" = .ok f := by decide +kernel
  have hrefused : scan "(cn=é(x)".toList = .error ⟨.unescaped '(', ['(', 'x', ')']⟩ := by
    decide +kernel
  have hnone : ¬ ∃ f, Spelled "(cn=é(x)".toList f := by
    rintro ⟨f, hf⟩
    have hok := scan_eq_ok_iff.2 hf
    rw [hrefused] at hok
    cases hok
  exact ⟨hread, ((parse_spelled_or_refused _).1 f).1 hread, hnone,
    (parse_spelled_or_refused "(cn=é(x)").2 hnone⟩

end Ldap.Filter
