import Ldap.Proofs.Filter.Wire

/-!
# Reading filters back

Which filters are read back from what they are written as, told part by part, and which elements
are read as substring assertions.
-/

namespace Ldap.Filter

open Ber (Element Tag)

/-! ## The parts of a filter -/

/-- `Stands n part f`: `part` is `f` or stands in it, and `n` groups of `f` stand around it. -/
inductive Stands : Nat → Filter → Filter → Prop
  | self (f : Filter) : Stands 0 f f
  | and {n : Nat} {part f : Filter} {fs : List Filter} :
    f ∈ fs → Stands n part f → Stands (n + 1) part (.and fs)
  | or {n : Nat} {part f : Filter} {fs : List Filter} :
    f ∈ fs → Stands n part f → Stands (n + 1) part (.or fs)
  | not {n : Nat} {part f : Filter} : Stands n part f → Stands (n + 1) part (.not f)

/-- A filter is within the room if each of its parts is. The induction is on the room, of which
each group takes one level. -/
theorem within_iff_forall_stands {p : FilterItem → Prop} {room : Nat} {f : Filter} :
    Within p room f ↔ ∀ n part, Stands n part f → n < room ∧ ∀ i, part = .item i → p i := by
  constructor
  · intro h n part hpart
    induction hpart generalizing room with
    | self f =>
      refine ⟨Nat.zero_lt_of_lt h.1, fun i hi => h.2 i ?_⟩
      rw [hi, items]
      exact List.mem_singleton_self i
    | and hmem _ ih =>
      obtain ⟨room, rfl⟩ := Nat.exists_eq_succ_of_ne_zero (Nat.ne_zero_of_lt h.1)
      exact (ih (within_and.1 h _ hmem)).imp_left Nat.succ_lt_succ
    | or hmem _ ih =>
      obtain ⟨room, rfl⟩ := Nat.exists_eq_succ_of_ne_zero (Nat.ne_zero_of_lt h.1)
      exact (ih (within_or.1 h _ hmem)).imp_left Nat.succ_lt_succ
    | not _ ih =>
      obtain ⟨room, rfl⟩ := Nat.exists_eq_succ_of_ne_zero (Nat.ne_zero_of_lt h.1)
      exact (ih (within_not.1 h)).imp_left Nat.succ_lt_succ
  · intro h
    induction room generalizing f with
    | zero => exact absurd (h 0 f (.self f)).1 (Nat.lt_irrefl 0)
    | succ room ih =>
      cases f with
      | and fs =>
        refine within_and.2 fun f hmem => ih fun n part hpart => ?_
        exact (h _ _ (.and hmem hpart)).imp_left Nat.lt_of_succ_lt_succ
      | or fs =>
        refine within_or.2 fun f hmem => ih fun n part hpart => ?_
        exact (h _ _ (.or hmem hpart)).imp_left Nat.lt_of_succ_lt_succ
      | not f =>
        refine within_not.2 (ih fun n part hpart => ?_)
        exact (h _ _ (.not hpart)).imp_left Nat.lt_of_succ_lt_succ
      | item i => exact within_item.2 ((h 0 _ (.self _)).2 i rfl)

/-- A message can carry a filter if no part stands too deep and every assertion is expressible. -/
theorem encodable_iff {f : Filter} :
    f.Encodable ↔
      ∀ n part, Stands n part f → n ≤ maxDepth ∧ ∀ i, part = .item i → i.Expressible := by
  refine (within_iff_forall_stands (p := FilterItem.Expressible)).trans ?_
  simp only [Nat.lt_succ_iff]

/-! ## Substring assertions -/

/-- The tags of the parts of a substring assertion in their order: a beginning or none, any number
of inner parts, and an end or none. -/
def InOrder (tags : List Tag) : Prop :=
  ∃ (initial last : Bool) (inner : Nat),
    tags = (if initial then [initialTag] else []) ++ List.replicate inner innerTag
      ++ (if last then [lastTag] else [])

theorem Substrings.inOrder (p : Substrings) : InOrder (p.elements.map (·.tag)) := by
  rcases p with ⟨initial, inner, last⟩
  refine ⟨initial.isSome, last.isSome, inner.length, ?_⟩
  have hinner : (inner.map (⟨innerTag, ·⟩ : List UInt8 → Element)).map (·.tag)
      = List.replicate inner.length innerTag := by
    rw [List.map_map]
    exact List.map_const'
  cases initial <;> cases last <;> simp [elements, hinner]

/-- Elements whose tags are in order are the parts of a substring assertion. -/
theorem InOrder.exists_elements {es : List Element} (h : InOrder (es.map (·.tag))) :
    ∃ p : Substrings, es = p.elements := by
  rcases h with ⟨initial, last, inner, h⟩
  obtain ⟨front, hend, rfl, hfront, hlast⟩ := List.map_eq_append_iff.1 h
  obtain ⟨hhead, mid, rfl, hinitial, hinner⟩ := List.map_eq_append_iff.1 hfront
  have hone {tag : Tag} {b : Bool} {xs : List Element}
      (hxs : xs.map (·.tag) = if b then [tag] else []) :
      ∃ part : Option (List UInt8), xs = part.toList.map (⟨tag, ·⟩) := by
    cases b with
    | false => exact ⟨none, List.map_eq_nil_iff.1 hxs⟩
    | true =>
      obtain ⟨x, rfl, rfl⟩ := List.map_eq_singleton_iff.1 hxs
      exact ⟨some x.content, rfl⟩
  obtain ⟨initial, rfl⟩ := hone hinitial
  obtain ⟨last, rfl⟩ := hone hlast
  refine ⟨⟨initial, mid.map (·.content), last⟩, ?_⟩
  have hmid : (mid.map (·.content)).map (⟨innerTag, ·⟩ : List UInt8 → Element) = mid := by
    rw [List.map_map]
    refine List.map_congr_left (fun x hx => ?_) |>.trans (List.map_id mid)
    have htag : x.tag = innerTag := List.eq_of_mem_replicate (hinner ▸ List.mem_map_of_mem hx)
    exact congrArg (Element.mk · x.content) htag.symm
  rw [Substrings.elements, hmid]

theorem decodeWithin_of_substringsTag {room : Nat} {e : Element} (htag : e.tag = substringsTag) :
    decodeWithin (room + 1) e = return .item (← decodeSubstrings e) := by
  have hitem : decodeItem e = decodeSubstrings e := by
    rw [decodeItem, htag]
    rfl
  rw [decodeWithin, htag, if_neg (by decide), if_neg (by decide), if_neg (by decide), hitem]

/-- An element with the tag of substring assertions is read exactly if it holds a name and a
sequence of one part at least, whose tags are in order. -/
theorem exists_decodeWithin_substrings_iff {room : Nat} {e : Element}
    (htag : e.tag = substringsTag) :
    (∃ f, decodeWithin (room + 1) e = .ok f) ↔
      ∃ x y es, e.Holds substringsTag [x, y] ∧ (∃ attr, x.asString = .ok attr) ∧
        y.Holds .sequence es ∧ es ≠ [] ∧ InOrder (es.map (·.tag)) := by
  rw [decodeWithin_of_substringsTag htag]
  constructor
  · intro h
    rcases h with ⟨f, h⟩
    obtain ⟨i, hi, -⟩ := bind_eq_ok_iff.1 h
    obtain ⟨attr, p, rfl, hex, x, y, hes, hattr, hy⟩ := decodeSubstrings_eq_ok_iff.1 hi
    refine ⟨x, y, _, hes, ⟨attr, hattr⟩, hy, fun hnil => ?_, p.inOrder⟩
    exact Substrings.elements_eq_nil_iff.1 hnil hex
  · intro h
    rcases h with ⟨x, y, es, hes, ⟨attr, hattr⟩, hy, hne, horder⟩
    obtain ⟨p, rfl⟩ := horder.exists_elements
    have hex : (FilterItem.substrings attr p.initial p.inner p.last).Expressible := by
      by_contra hnot
      exact hne (Substrings.elements_eq_nil_iff.2 hnot)
    have hi := decodeSubstrings_eq_ok_iff.2 ⟨attr, p, rfl, hex, x, y, hes, hattr, hy⟩
    exact ⟨_, bind_eq_ok_iff.2 ⟨_, hi, rfl⟩⟩

/-! ## Filters -/

/-- A filter that takes less than four gigabytes is read back from what it is written as exactly if
each of its parts stands in a hundred groups at most, each substring assertion in it has a part and
each extensible match a name or a rule. No other filter is read from any element, and a substring
assertion is read, in however many groups it stands, exactly if it has parts that are in order. -/
theorem decode_encode_iff_parts :
    (∀ f : Filter, f.encode.encode.length < 2 ^ 32 →
      (decode f.encode = .ok f ↔
        ∀ n part, Stands n part f → n ≤ 100 ∧ ∀ i, part = .item i → i.Expressible)) ∧
    (∀ e f, decode e = .ok f →
      ∀ n part, Stands n part f → n ≤ 100 ∧ ∀ i, part = .item i → i.Expressible) ∧
    ∀ room e, e.tag = substringsTag →
      ((∃ f, decodeWithin (room + 1) e = .ok f) ↔
        ∃ x y es, e.Holds substringsTag [x, y] ∧ (∃ attr, x.asString = .ok attr) ∧
          y.Holds .sequence es ∧ es ≠ [] ∧ InOrder (es.map (·.tag))) := by
  refine ⟨fun f hlt => ?_, fun e f h => encodable_iff.1 (faithful.good h),
    fun room e htag => exists_decodeWithin_substrings_iff htag⟩
  constructor
  · exact fun h => encodable_iff.1 (faithful.good h)
  · exact fun h => faithful.reads (encodable_iff.2 h) (Element.short_of_length_lt hlt)

/-- A filter stands in as many negations as are put around it. -/
theorem stands_iterate_not (n : Nat) (f : Filter) : Stands n f (Filter.not^[n] f) := by
  induction n with
  | zero => exact .self f
  | succ n ih =>
    rw [Function.iterate_succ_apply']
    exact .not ih

/-- A presence test is read back from within a hundred negations and not from within one more, and
a substring assertion is read with nothing but an end, but not with an end before an inner part. -/
theorem decode_encode_of_negations :
    let deep (n : Nat) : Filter := Filter.not^[n] (.item (.present "cn"))
    let parts (tags : List Tag) : Element :=
      .constructed substringsTag [.string "cn", .sequence (tags.map (⟨·, [0x61]⟩))]
    (deep 100).encode.encode.length < 2 ^ 32 ∧ decode (deep 100).encode = .ok (deep 100) ∧
      (deep 101).encode.encode.length < 2 ^ 32 ∧ decode (deep 101).encode ≠ .ok (deep 101) ∧
      (parts [lastTag]).tag = substringsTag ∧ (∃ f, decode (parts [lastTag]) = .ok f) ∧
      (parts [lastTag, innerTag]).tag = substringsTag ∧
      ¬∃ f, decode (parts [lastTag, innerTag]) = .ok f := by
  intro deep parts
  have hshort : (deep 100).encode.encode.length < 2 ^ 32 := by decide +kernel
  have hlong : (deep 101).encode.encode.length < 2 ^ 32 := by decide +kernel
  have hread : decode (deep 100).encode = .ok (deep 100) := by
    refine (decode_encode_iff_parts.1 _ hshort).2 (encodable_iff.1 ⟨by decide +kernel, ?_⟩)
    intro i hi
    obtain rfl : i = .present "cn" := by
      rw [show (deep 100).items = [.present "cn"] by decide +kernel] at hi
      exact List.mem_singleton.1 hi
    trivial
  have htoo : decode (deep 101).encode ≠ .ok (deep 101) := by
    intro h
    have hle := ((decode_encode_iff_parts.1 _ hlong).1 h _ _ (stands_iterate_not 101 _)).1
    exact absurd hle (by decide)
  have hmembers (tags : List Tag) (h : (parts tags).encode.length < 2 ^ 32) :
      ∃ y, (parts tags).Holds substringsTag [.string "cn", y] ∧
        y.Holds .sequence (tags.map (⟨·, [0x61]⟩)) := by
    have hall : (parts tags).Short := Element.short_of_length_lt h
    exact ⟨_, Element.holds_constructed hall,
      Element.holds_constructed (hall.member (List.mem_cons_of_mem _ List.mem_cons_self))⟩
  have hlast : ∃ f, decode (parts [lastTag]) = .ok f := by
    obtain ⟨y, hes, hy⟩ := hmembers [lastTag] (by decide +kernel)
    exact (decode_encode_iff_parts.2.2 maxDepth _ rfl).2 ⟨_, y, _, hes,
      ⟨"cn", Element.asStringTagged_stringTagged _ _⟩, hy, by decide, false, true, 0, rfl⟩
  have hswapped : ¬∃ f, decode (parts [lastTag, innerTag]) = .ok f := by
    intro h
    obtain ⟨y, hes, hy⟩ := hmembers [lastTag, innerTag] (by decide +kernel)
    obtain ⟨x', y', es, hes', -, hy', -, initial, last, inner, horder⟩ :=
      (decode_encode_iff_parts.2.2 maxDepth _ rfl).1 h
    cases hes.2.symm.trans hes'.2
    cases hy.2.symm.trans hy'.2
    -- whatever stands first, it is not the end
    cases initial <;> cases last <;> cases inner <;>
      simp [List.replicate_succ, lastTag_ne] at horder
  exact ⟨hshort, hread, hlong, htoo, rfl, hlast, rfl, hswapped⟩

end Ldap.Filter
