import Ldap.Filter.Wire
import Ldap.Proofs.Ber.Faithful

/-!
# Which filters survive the wire

A filter is read back from its element exactly if it is nested at most a hundred levels deep, each
of its substring assertions has a part, and each of its extensible matches names an attribute or a
rule.
-/

namespace Ldap

open Ber (Element Tag)

/-! ## Filters that can be read -/

/-- An assertion with all that a reader asks for. -/
def FilterItem.Expressible : FilterItem → Prop
  | substrings _ initial inner last => initial.isSome ∨ inner ≠ [] ∨ last.isSome
  | extensible rule attr _ _ => rule.isSome ∨ attr.isSome
  | compare .. | present _ => True

namespace Filter

mutual

/-- The most groups that stand around a part of a filter. -/
def depth : Filter → Nat
  | .and fs | .or fs => depthOfAll fs
  | .not f => f.depth + 1
  | .item _ => 0

/-- The most groups around a part of filters that stand in a group. -/
def depthOfAll : List Filter → Nat
  | [] => 0
  | f :: fs => max (f.depth + 1) (depthOfAll fs)

end

mutual

/-- The assertions that a filter is made of. -/
def items : Filter → List FilterItem
  | .and fs | .or fs => itemsOfAll fs
  | .not f => f.items
  | .item i => [i]

/-- The assertions that filters are made of. -/
def itemsOfAll : List Filter → List FilterItem
  | [] => []
  | f :: fs => f.items ++ itemsOfAll fs

end

theorem depthOfAll_lt_iff {fs : List Filter} {n : Nat} :
    depthOfAll fs < n + 1 ↔ ∀ f ∈ fs, f.depth < n := by
  induction fs with
  | nil => simp [depthOfAll]
  | cons f fs ih =>
    rw [depthOfAll, Nat.max_lt, ih]
    simp

theorem mem_itemsOfAll {fs : List Filter} {i : FilterItem} :
    i ∈ itemsOfAll fs ↔ ∃ f ∈ fs, i ∈ f.items := by
  induction fs with
  | nil => simp [itemsOfAll]
  | cons f fs ih => simp [itemsOfAll, ih]

/-- Filters in a filter are written one by one. -/
theorem encodeAll_eq_map (fs : List Filter) : encodeAll fs = fs.map encode := by
  induction fs with
  | nil => rfl
  | cons f fs ih => rw [encodeAll, ih, List.map_cons]

/-- A filter is no deeper than there is room for, and its assertions are all of one kind. -/
def Within (p : FilterItem → Prop) (room : Nat) (f : Filter) : Prop :=
  f.depth < room ∧ ∀ i ∈ f.items, p i

section Within

variable {p : FilterItem → Prop} {room : Nat}

/-- A group takes one level, and asks of the filters in it what is asked of itself. -/
theorem within_and {fs : List Filter} :
    Within p (room + 1) (.and fs) ↔ ∀ f ∈ fs, Within p room f := by
  unfold Within
  rw [depth, items, depthOfAll_lt_iff]
  simp only [mem_itemsOfAll]
  grind

theorem within_or {fs : List Filter} :
    Within p (room + 1) (.or fs) ↔ ∀ f ∈ fs, Within p room f := by
  unfold Within
  rw [depth, items, depthOfAll_lt_iff]
  simp only [mem_itemsOfAll]
  grind

theorem within_not {f : Filter} : Within p (room + 1) (.not f) ↔ Within p room f := by
  unfold Within
  rw [depth, items, Nat.add_lt_add_iff_right]

theorem within_item {i : FilterItem} : Within p (room + 1) (.item i) ↔ p i := by
  unfold Within
  rw [depth, items]
  simp

end Within

/-! ## Comparisons -/

/-- A comparison is read from the tag of its relation, a text and octets. -/
theorem decodeCompare_eq_ok_iff {relation : Relation} {e : Element} {i : FilterItem} :
    decodeCompare relation e = .ok i ↔
      ∃ attr value, i = .compare relation attr value ∧
        ∃ x y, e.Holds (relationTag relation) [x, y] ∧ x.asString = .ok attr ∧
          y.asOctets = .ok value := by
  apply pair_eq_ok_iff.trans
  simp only [bind_eq_ok_iff, liftM_eq_ok_iff, pure_eq_ok_iff]
  constructor
  · intro h
    rcases h with ⟨x, y, hes, attr, hattr, value, hvalue, rfl⟩
    exact ⟨attr, value, rfl, x, y, hes, hattr, hvalue⟩
  · intro h
    rcases h with ⟨attr, value, rfl, x, y, hes, hattr, hvalue⟩
    exact ⟨x, y, hes, attr, hattr, value, hvalue, rfl⟩

/-- A comparison is faithful in its attribute and its value. -/
theorem faithful_compare (relation : Relation) :
    Faithful (fun p : String × List UInt8 => encodeItem (.compare relation p.1 p.2))
      (fun e p => ∃ x y, e.Holds (relationTag relation) [x, y] ∧ x.asString = .ok p.1 ∧
        y.asOctets = .ok p.2) fun _ => True :=
  (Faithful.pair (f := Prod.fst) (g := Prod.snd) .string .octets (fun _ => rfl)
    fun _ _ => Iff.rfl).of_iff (by simp)

/-! ## Substrings -/

/-- The parts of a substring assertion as elements. -/
def Substrings.elements (p : Substrings) : List Element :=
  p.initial.toList.map (⟨initialTag, ·⟩) ++ p.inner.map (⟨innerTag, ·⟩)
    ++ p.last.toList.map (⟨lastTag, ·⟩)

theorem innerTag_ne_initialTag : innerTag ≠ initialTag := by decide

theorem lastTag_ne : lastTag ≠ initialTag ∧ lastTag ≠ innerTag := by decide

/-- After the beginning, the parts that are left are read back. -/
theorem decodeParts_inner (first : Bool) (inner : List (List UInt8)) (last : Option (List UInt8)) :
    decodeParts first (inner.map (⟨innerTag, ·⟩) ++ last.toList.map (⟨lastTag, ·⟩))
      = .ok ⟨none, inner, last⟩ := by
  induction inner generalizing first with
  | nil =>
    cases last with
    | none => rfl
    | some bytes => simp [decodeParts, lastTag_ne, pure, Except.pure]
  | cons bytes inner ih =>
    rw [List.map_cons, List.cons_append, decodeParts]
    simp [innerTag_ne_initialTag, ih, bind, Except.bind, pure, Except.pure]

/-- The parts of a substring assertion are read back from their tags. -/
theorem decodeParts_elements (p : Substrings) : decodeParts true p.elements = .ok p := by
  rcases p with ⟨initial, inner, last⟩
  unfold Substrings.elements
  rw [List.append_assoc]
  cases initial with
  | none => exact decodeParts_inner true inner last
  | some bytes =>
    rw [Option.toList_some, List.map_singleton, List.singleton_append, decodeParts]
    simp [decodeParts_inner, bind, Except.bind, pure, Except.pure]

/-- Parts are read from nothing but what is written for them, except that an initial part is one at
the beginning only. -/
theorem elements_of_decodeParts {first : Bool} {es : List Element} {p : Substrings}
    (h : decodeParts first es = .ok p) : es = p.elements ∧ (first = false → p.initial = none) := by
  -- on the elements: a beginning is read only as the first one, and an end only as the last
  induction es generalizing first p with
  | nil =>
    cases h
    exact ⟨rfl, fun _ => rfl⟩
  | cons e es ih =>
    rcases e with ⟨tag, content⟩
    rw [decodeParts] at h
    split at h
    · next hinitial =>
      rcases bind_eq_ok_iff.1 h with ⟨parts, hparts, h⟩
      obtain rfl := pure_eq_ok_iff.1 h
      obtain ⟨rfl, hnone⟩ := ih hparts
      have htag : tag = initialTag ∧ first = true := by simpa using hinitial
      refine ⟨?_, fun hfirst => absurd htag.2 (by simp [hfirst])⟩
      simp [Substrings.elements, hnone rfl, htag.1]
    split at h
    · next htag =>
      rcases bind_eq_ok_iff.1 h with ⟨parts, hparts, h⟩
      obtain rfl := pure_eq_ok_iff.1 h
      obtain ⟨rfl, hnone⟩ := ih hparts
      refine ⟨?_, fun _ => hnone rfl⟩
      rw [show tag = innerTag from htag]
      simp [Substrings.elements, hnone rfl]
    split at h
    · next hlast =>
      obtain rfl := pure_eq_ok_iff.1 h
      have hes : tag = lastTag ∧ es = [] := by simpa using hlast
      refine ⟨?_, fun _ => rfl⟩
      rw [hes.1, hes.2]
      rfl
    split at h
    · cases h
    · cases h

/-- Parts are read from the elements that they are written as, and from no others. -/
theorem decodeParts_eq_ok_iff {es : List Element} {p : Substrings} :
    decodeParts true es = .ok p ↔ es = p.elements := by
  constructor
  · exact fun h => (elements_of_decodeParts h).1
  · intro heq
    subst heq
    exact decodeParts_elements p

theorem Substrings.elements_eq_nil_iff {p : Substrings} :
    p.elements = [] ↔ ¬(p.initial.isSome ∨ p.inner ≠ [] ∨ p.last.isSome) := by
  rcases p with ⟨initial, inner, last⟩
  cases initial <;> cases last <;> simp [elements]

/-- A substring assertion is read if there is a part in it. -/
theorem decodeSubstrings_eq_ok_iff {e : Element} {i : FilterItem} :
    decodeSubstrings e = .ok i ↔
      ∃ attr, ∃ p : Substrings, i = .substrings attr p.initial p.inner p.last ∧ i.Expressible ∧
        ∃ x y, e.Holds substringsTag [x, y] ∧ x.asString = .ok attr ∧
          y.Holds .sequence p.elements := by
  apply pair_eq_ok_iff.trans
  simp only [bind_eq_ok_iff, liftM_eq_ok_iff]
  constructor
  · intro h
    rcases h with ⟨x, y, hes, attr, hattr, es, hy, h⟩
    split at h
    · cases h
    · next hempty =>
      rcases bind_eq_ok_iff.1 h with ⟨p, hp, h⟩
      obtain rfl := pure_eq_ok_iff.1 h
      obtain rfl := decodeParts_eq_ok_iff.1 hp
      refine ⟨attr, p, rfl, ?_, x, y, hes, hattr, Element.asSequenceTagged_eq_ok_iff.1 hy⟩
      by_contra hnot
      exact hempty (List.isEmpty_iff.2 (Substrings.elements_eq_nil_iff.2 hnot))
  · intro h
    rcases h with ⟨attr, p, rfl, hex, x, y, hes, hattr, hy⟩
    refine ⟨x, y, hes, attr, hattr, _, Element.asSequenceTagged_eq_ok_iff.2 hy, ?_⟩
    have hne : p.elements.isEmpty = false := by
      rw [List.isEmpty_eq_false_iff]
      exact fun hnil => Substrings.elements_eq_nil_iff.1 hnil hex
    rw [hne, if_neg (by decide)]
    exact bind_eq_ok_iff.2 ⟨p, decodeParts_eq_ok_iff.2 rfl, rfl⟩

/-! ## Extensible matches -/

/-- The parts of an extensible match as elements. -/
def ExtensibleParts.elements (p : ExtensibleParts) : List Element :=
  p.rule.toList.map (.stringTagged ruleTag) ++ p.attr.toList.map (.stringTagged attrTag)
    ++ p.value.toList.map (⟨valueTag, ·⟩) ++ (if p.dn then [.booleanTagged dnTag true] else [])

theorem encodeItem_extensible (rule attr : Option String) (value : List UInt8) (dn : Bool) :
    encodeItem (.extensible rule attr value dn) =
      .constructed extensibleTag (ExtensibleParts.elements ⟨rule, attr, some value, dn⟩) := rfl

/-- The parts that were read take no more room than the elements that they were read from. -/
theorem size_elements_of_decodeExtensiblePart {p p' : ExtensibleParts} {e : Element}
    (h : decodeExtensiblePart p e = .ok p') :
    Element.size p'.elements ≤ Element.size p.elements + e.encode.length := by
  unfold decodeExtensiblePart at h
  unfold ExtensibleParts.elements
  simp only [Element.size_append]
  -- a part that was read before is replaced, which makes room
  split at h
  · rcases bind_eq_ok_iff.1 h with ⟨s, hs, h⟩
    obtain rfl := pure_eq_ok_iff.1 h
    obtain rfl := Element.asStringTagged_eq_ok_iff.1 (liftM_eq_ok_iff.1 hs)
    simp
    omega
  split at h
  · rcases bind_eq_ok_iff.1 h with ⟨s, hs, h⟩
    obtain rfl := pure_eq_ok_iff.1 h
    obtain rfl := Element.asStringTagged_eq_ok_iff.1 (liftM_eq_ok_iff.1 hs)
    simp
    omega
  split at h
  · next htag =>
    obtain rfl := pure_eq_ok_iff.1 h
    rcases e with ⟨tag, content⟩
    obtain rfl : tag = valueTag := htag
    simp
    omega
  split at h
  · rcases bind_eq_ok_iff.1 h with ⟨b, hb, h⟩
    obtain rfl := pure_eq_ok_iff.1 h
    have hle := (Faithful.booleanTagged dnTag).shrinks (liftM_eq_ok_iff.1 hb)
    -- a flag that is not set is not written
    cases b <;> simp <;> omega
  · cases h

theorem extensibleTags_ne :
    attrTag ≠ ruleTag ∧ valueTag ≠ ruleTag ∧ valueTag ≠ attrTag ∧ dnTag ≠ ruleTag ∧
      dnTag ≠ attrTag ∧ dnTag ≠ valueTag := by
  decide

/-- The parts of an extensible match are read back, as each has a tag of its own. -/
theorem foldlM_elements (p : ExtensibleParts) :
    p.elements.foldlM decodeExtensiblePart ⟨none, none, none, false⟩ = .ok p := by
  rcases p with ⟨rule, attr, value, dn⟩
  cases rule <;> cases attr <;> cases value <;> cases dn <;>
    simp [ExtensibleParts.elements, decodeExtensiblePart, extensibleTags_ne, bind, Except.bind,
      pure, Except.pure]

/-- An extensible match is read if it has a value, and a rule or an attribute. -/
theorem decodeExtensible_eq_ok_iff {e : Element} {i : FilterItem} :
    decodeExtensible e = .ok i ↔
      ∃ rule attr value dn, i = .extensible rule attr value dn ∧ i.Expressible ∧
        ∃ es, e.Holds extensibleTag es ∧ es.length ≤ 4 ∧
          es.foldlM decodeExtensiblePart ⟨none, none, none, false⟩
            = .ok ⟨rule, attr, some value, dn⟩ := by
  unfold decodeExtensible
  simp only [bind_eq_ok_iff, liftM_eq_ok_iff, Element.asSequenceTagged_eq_ok_iff,
    checkCount_eq_ok_iff]
  constructor
  · intro h
    rcases h with ⟨es, hes, -, ⟨-, hmax⟩, ⟨rule, attr, value, dn⟩, hparts, h⟩
    cases value with
    | none => cases h
    | some value =>
      dsimp only at h
      split at h
      · cases h
      · next hsome =>
        obtain rfl := pure_eq_ok_iff.1 h
        refine ⟨rule, attr, value, dn, rfl, ?_, es, hes, hmax 4 rfl, hparts⟩
        show rule.isSome ∨ attr.isSome
        cases rule <;> cases attr <;> simp_all
  · intro h
    rcases h with ⟨rule, attr, value, dn, rfl, hex, es, hes, hmax, hparts⟩
    have hmin : 1 ≤ es.length := by
      cases es with
      | nil => cases pure_eq_ok_iff.1 hparts
      | cons e es => simp
    refine ⟨es, hes, (), ⟨hmin, by simpa using hmax⟩, _, hparts, ?_⟩
    have hsome : (rule.isNone && attr.isNone) = false := by
      replace hex : rule.isSome ∨ attr.isSome := hex
      cases rule <;> cases attr <;> simp_all
    dsimp only
    rw [hsome, if_neg (by decide)]
    rfl

/-! ## Assertions -/

/-- The elements that an assertion is read from. -/
def Spells (e : Element) : FilterItem → Prop
  | .compare relation attr value =>
    ∃ x y, e.Holds (relationTag relation) [x, y] ∧ x.asString = .ok attr ∧ y.asOctets = .ok value
  | .present attr => e.asStringTagged presentTag = .ok attr
  | .substrings attr initial inner last =>
    ∃ x y, e.Holds substringsTag [x, y] ∧ x.asString = .ok attr ∧
      y.Holds .sequence (Substrings.elements ⟨initial, inner, last⟩)
  | .extensible rule attr value dn =>
    ∃ es, e.Holds extensibleTag es ∧ es.length ≤ 4 ∧
      es.foldlM decodeExtensiblePart ⟨none, none, none, false⟩ = .ok ⟨rule, attr, some value, dn⟩

/-- The tag of an element tells the kind of assertion. -/
theorem Spells.tag_eq {e : Element} {i : FilterItem} (h : Spells e i) :
    e.tag = (encodeItem i).tag := by
  cases i with
  | compare relation attr value =>
    rcases h with ⟨x, y, hes, -, -⟩
    exact hes.tag_eq
  | present attr => rw [Element.asStringTagged_eq_ok_iff.1 h, encodeItem]
  | substrings attr initial inner last =>
    rcases h with ⟨x, y, hes, -, -⟩
    exact hes.tag_eq
  | extensible rule attr value dn =>
    rcases h with ⟨es, hes, -, -⟩
    exact hes.tag_eq

/-- An assertion is read exactly from the elements that spell it, and is expressible then. -/
theorem decodeItem_eq_ok_iff {e : Element} {i : FilterItem} :
    decodeItem e = .ok i ↔ i.Expressible ∧ Spells e i := by
  constructor
  · intro h
    have hcompare {relation : Relation} (h : decodeCompare relation e = .ok i) :
        i.Expressible ∧ Spells e i := by
      rcases decodeCompare_eq_ok_iff.1 h with ⟨attr, value, rfl, hread⟩
      exact ⟨trivial, hread⟩
    -- one kind after the other is asked whether the tag is its own
    unfold decodeItem at h
    split at h
    · exact hcompare h
    split at h
    · exact hcompare h
    split at h
    · exact hcompare h
    split at h
    · exact hcompare h
    split at h
    · rcases bind_eq_ok_iff.1 h with ⟨attr, hattr, h⟩
      obtain rfl := pure_eq_ok_iff.1 h
      exact ⟨trivial, liftM_eq_ok_iff.1 hattr⟩
    split at h
    · rcases decodeSubstrings_eq_ok_iff.1 h with ⟨attr, p, rfl, hex, hread⟩
      exact ⟨hex, hread⟩
    split at h
    · rcases decodeExtensible_eq_ok_iff.1 h with ⟨rule, attr, value, dn, rfl, hex, hread⟩
      exact ⟨hex, hread⟩
    · cases h
  · intro h
    rcases h with ⟨hex, hread⟩
    -- the tag is that of the kind, so that no other kind is asked
    have htag := hread.tag_eq
    unfold decodeItem
    rw [htag]
    cases i with
    | compare relation attr value =>
      have hdecode : decodeCompare relation e = .ok (.compare relation attr value) :=
        decodeCompare_eq_ok_iff.2 ⟨attr, value, rfl, hread⟩
      cases relation <;> exact hdecode
    | present attr =>
      have hdecode : e.asStringTagged presentTag = .ok attr := hread
      exact bind_eq_ok_iff.2 ⟨attr, liftM_eq_ok_iff.2 hdecode, rfl⟩
    | substrings attr initial inner last =>
      exact decodeSubstrings_eq_ok_iff.2 ⟨attr, ⟨initial, inner, last⟩, rfl, hex, hread⟩
    | extensible rule attr value dn =>
      exact decodeExtensible_eq_ok_iff.2 ⟨rule, attr, value, dn, rfl, hex, hread⟩

/-- A short assertion spells itself. -/
theorem spells_encodeItem {i : FilterItem} (h : (encodeItem i).Short) :
    Spells (encodeItem i) i := by
  cases i with
  | compare relation attr value =>
    exact (faithful_compare relation).reads (a := (attr, value)) trivial h
  | present attr => exact Element.asStringTagged_stringTagged _ _
  | substrings attr initial inner last =>
    exact ⟨_, _, Element.holds_constructed h, Element.asStringTagged_stringTagged _ _,
      Element.holds_constructed (h.member (List.mem_cons_of_mem _ List.mem_cons_self))⟩
  | extensible rule attr value dn =>
    rw [encodeItem_extensible] at h ⊢
    refine ⟨_, Element.holds_constructed h, ?_, foldlM_elements _⟩
    -- there are four parts at most
    cases rule <;> cases attr <;> cases dn <;> simp [ExtensibleParts.elements]

/-- An assertion is written as an element that is no longer than the one it was read from. -/
theorem Spells.length_encodeItem_le {e : Element} {i : FilterItem} (h : Spells e i) :
    (encodeItem i).encode.length ≤ e.encode.length := by
  cases i with
  | compare relation attr value => exact (faithful_compare relation).shrinks (a := (attr, value)) h
  | present attr => exact (Faithful.stringTagged presentTag).shrinks h
  | substrings attr initial inner last =>
    rcases h with ⟨x, y, hes, hattr, hparts⟩
    have hlex := Faithful.string.shrinks hattr
    -- the parts take as much room as they did, their sequence perhaps less
    have hley := hparts.constructed_le .sequence le_rfl
    apply hes.constructed_le _
    simp only [Element.size_cons, Element.size_nil]
    exact Nat.add_le_add hlex (Nat.add_le_add_right hley _)
  | extensible rule attr value dn =>
    rcases h with ⟨es, hes, -, hparts⟩
    have hsize := foldlM_invariant (n := 0) (motive := fun n p => Element.size p.elements ≤ n)
      (fun hn hstep => (size_elements_of_decodeExtensiblePart hstep).trans
        (Nat.add_le_add_right hn _)) le_rfl hparts
    rw [encodeItem_extensible]
    exact hes.constructed_le _ (by simpa using hsize)

/-- An assertion is faithful if it has all that a reader asks for. -/
theorem faithful_item :
    Faithful encodeItem (fun e i => decodeItem e = .ok i) FilterItem.Expressible where
  reads hex hshort := decodeItem_eq_ok_iff.2 ⟨hex, spells_encodeItem hshort⟩
  good h := (decodeItem_eq_ok_iff.1 h).1
  shrinks h := (decodeItem_eq_ok_iff.1 h).2.length_encodeItem_le

/-! ## Filters -/

/-- The elements that a filter is read from, if its parts are read with some room. -/
def SpellsFilter (room : Nat) (e : Element) : Filter → Prop
  | .and fs => Lists (fun x f => decodeWithin room x = .ok f) andTag e fs
  | .or fs => Lists (fun x f => decodeWithin room x = .ok f) orTag e fs
  | .not f => ∃ x, e.Holds notTag [x] ∧ decodeWithin room x = .ok f
  | .item i => decodeItem e = .ok i

/-- No assertion has the tag of a group. -/
theorem tag_encodeItem_ne (i : FilterItem) :
    (encodeItem i).tag ≠ andTag ∧ (encodeItem i).tag ≠ orTag ∧ (encodeItem i).tag ≠ notTag := by
  cases i with
  | compare relation attr value =>
    show relationTag relation ≠ andTag ∧ relationTag relation ≠ orTag ∧
      relationTag relation ≠ notTag
    cases relation <;> decide
  | present attr =>
    show presentTag ≠ andTag ∧ presentTag ≠ orTag ∧ presentTag ≠ notTag
    decide
  | substrings attr initial inner last =>
    show substringsTag ≠ andTag ∧ substringsTag ≠ orTag ∧ substringsTag ≠ notTag
    decide
  | extensible rule attr value dn =>
    show extensibleTag ≠ andTag ∧ extensibleTag ≠ orTag ∧ extensibleTag ≠ notTag
    decide

/-- With room left, a filter is read exactly from the elements that spell it. -/
theorem decodeWithin_succ_eq_ok_iff {room : Nat} {e : Element} {f : Filter} :
    decodeWithin (room + 1) e = .ok f ↔ SpellsFilter room e f := by
  constructor
  · intro h
    unfold decodeWithin at h
    split at h
    · simp only [bind_eq_ok_iff, liftM_eq_ok_iff, Element.asSequenceTagged_eq_ok_iff,
        mapM_eq_ok_iff, pure_eq_ok_iff] at h
      rcases h with ⟨es, hes, fs, hfs, rfl⟩
      exact ⟨es, hes, hfs⟩
    split at h
    · simp only [bind_eq_ok_iff, liftM_eq_ok_iff, Element.asSequenceTagged_eq_ok_iff,
        mapM_eq_ok_iff, pure_eq_ok_iff] at h
      rcases h with ⟨es, hes, fs, hfs, rfl⟩
      exact ⟨es, hes, hfs⟩
    split at h
    · simp only [bind_eq_ok_iff, liftM_eq_ok_iff, Element.asSequenceTagged_eq_ok_iff] at h
      rcases h with ⟨es, hes, -, -, h⟩
      split at h
      · rcases bind_eq_ok_iff.1 h with ⟨f, hf, h⟩
        obtain rfl := pure_eq_ok_iff.1 h
        exact ⟨_, hes, hf⟩
      · cases h
    · rcases bind_eq_ok_iff.1 h with ⟨i, hi, h⟩
      obtain rfl := pure_eq_ok_iff.1 h
      exact hi
  · intro h
    unfold decodeWithin
    cases f with
    | and fs =>
      rcases h with ⟨es, hes, hfs⟩
      rw [if_pos hes.tag_eq]
      simp only [bind_eq_ok_iff, liftM_eq_ok_iff, Element.asSequenceTagged_eq_ok_iff,
        mapM_eq_ok_iff, pure_eq_ok_iff]
      exact ⟨es, hes, fs, hfs, rfl⟩
    | or fs =>
      rcases h with ⟨es, hes, hfs⟩
      rw [hes.tag_eq, if_neg (by decide), if_pos rfl]
      simp only [bind_eq_ok_iff, liftM_eq_ok_iff, Element.asSequenceTagged_eq_ok_iff,
        mapM_eq_ok_iff, pure_eq_ok_iff]
      exact ⟨es, hes, fs, hfs, rfl⟩
    | not f =>
      rcases h with ⟨x, hes, hf⟩
      rw [hes.tag_eq, if_neg (by decide), if_neg (by decide), if_pos rfl]
      simp only [bind_eq_ok_iff, liftM_eq_ok_iff, Element.asSequenceTagged_eq_ok_iff,
        checkCount_eq_ok_iff]
      exact ⟨_, hes, (), by simp, bind_eq_ok_iff.2 ⟨f, hf, rfl⟩⟩
    | item i =>
      -- an assertion is asked for last, when the tag is of no group
      have hne := tag_encodeItem_ne i
      rw [← (decodeItem_eq_ok_iff.1 h).2.tag_eq] at hne
      rw [if_neg hne.1, if_neg hne.2.1, if_neg hne.2.2]
      exact bind_eq_ok_iff.2 ⟨i, h, rfl⟩

/-- The reader and the writer of filters fit for the filters that are no deeper than the room and
made of assertions with all that a reader asks for. The induction is on the room, which each group
takes one level of. -/
theorem faithful_within (room : Nat) :
    Faithful encode (fun e f => decodeWithin room e = .ok f)
      (Within FilterItem.Expressible room) := by
  induction room with
  | zero =>
    -- without room nothing is read
    refine ⟨fun h => absurd h.1 (by simp), fun h => ?_, fun h => ?_⟩
    all_goals cases h
  | succ room ih =>
    constructor
    · intro f hgood hshort
      apply decodeWithin_succ_eq_ok_iff.2
      cases f with
      | and fs =>
        rw [encode, encodeAll_eq_map] at hshort ⊢
        exact (ih.lists andTag).reads (within_and.1 hgood) hshort
      | or fs =>
        rw [encode, encodeAll_eq_map] at hshort ⊢
        exact (ih.lists orTag).reads (within_or.1 hgood) hshort
      | not f =>
        rw [encode] at hshort ⊢
        exact ⟨_, Element.holds_constructed hshort,
          ih.reads (within_not.1 hgood) (hshort.member List.mem_cons_self)⟩
      | item i =>
        rw [encode] at hshort ⊢
        exact faithful_item.reads (within_item.1 hgood) hshort
    · intro e f h
      replace h := decodeWithin_succ_eq_ok_iff.1 h
      cases f with
      | and fs => exact within_and.2 ((ih.lists andTag).good h)
      | or fs => exact within_or.2 ((ih.lists orTag).good h)
      | not f =>
        rcases h with ⟨x, -, hf⟩
        exact within_not.2 (ih.good hf)
      | item i => exact within_item.2 (faithful_item.good h)
    · intro e f h
      replace h := decodeWithin_succ_eq_ok_iff.1 h
      cases f with
      | and fs =>
        rw [encode, encodeAll_eq_map]
        exact (ih.lists andTag).shrinks h
      | or fs =>
        rw [encode, encodeAll_eq_map]
        exact (ih.lists orTag).shrinks h
      | not f =>
        rcases h with ⟨x, hes, hf⟩
        have hle := ih.shrinks hf
        rw [encode]
        exact hes.constructed_le _ (by simpa using hle)
      | item i => exact faithful_item.shrinks h

/-- A filter that a message can carry. -/
abbrev Encodable (f : Filter) : Prop :=
  Within FilterItem.Expressible (maxDepth + 1) f

/-- A filter is read back if it is not too deep and all its assertions are expressible. -/
theorem faithful : Faithful encode (fun e f => decode e = .ok f) Encodable :=
  faithful_within _

end Filter
end Ldap
