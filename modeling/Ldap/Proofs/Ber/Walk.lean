import Ldap.Proofs.Ber.Agreement

/-!
# The members of a sequence, one by one

A sequence can be read as a whole and split into its members, or its header can be read and its
members taken one by one for as long as the cursor says that there are more (`Reader.walk`). Both
find the same members. A member that runs past the end of the sequence may well be there, made of
bytes that follow the sequence; that it is refused rests on the count of bytes alone.
-/

namespace Ldap.Ber

/-! ## What an element is made of -/

/-- An element is made of bytes of its own, whatever follows them. -/
theorem Element.exists_spelling_of_parse {bytes rest : List UInt8} {e : Element}
    (h : parse bytes = .ok (e, rest)) :
    ∃ head, bytes = head ++ rest ∧ ∀ tail, parse (head ++ tail) = .ok (e, tail) := by
  cases bytes with
  | nil => cases h
  | cons tag body =>
    rcases parse_cons_eq_ok_iff.1 h with ⟨n, content, hlength, hle, rfl, rfl⟩
    obtain ⟨length, hspelled, rfl⟩ := Length.decode_eq_ok_iff_spelled.1 hlength
    refine ⟨tag :: (length ++ content.take n), by simp, fun tail => ?_⟩
    have hlen : (content.take n).length = n := by simp [hle]
    rw [List.cons_append, List.append_assoc]
    refine parse_cons_eq_ok_iff.2 ⟨n, _, Length.decode_eq_ok_iff_spelled.2 ⟨_, hspelled, rfl⟩,
      by simp [hle], ?_, ?_⟩
    · rw [List.take_left' hlen]
    · rw [List.drop_left' hlen]

/-! ## What a cursor says -/

theorem Cursor.hasMore_eq_false_iff {c : Cursor} {total : Nat} :
    c.hasMore total = .ok false ↔ total = c.stop := by
  unfold hasMore
  split
  · next hlt => simp [hlt.ne]
  · split <;> simp [*]

theorem Cursor.hasMore_of_stop_lt {c : Cursor} {total : Nat} (h : c.stop < total) :
    c.hasMore total = .error (.readPastEnd c.length c.stop total) := by
  rw [hasMore, if_neg (by omega), if_neg (by omega)]

namespace Reader

/-- An element that is taken is spelled by the bytes that were taken. -/
theorem spelled_of_element {r r' : Reader} {e : Element} (h : Runs element r e r') :
    ∃ head, r.Took head r' ∧ ∀ tail, Element.parse (head ++ tail) = .ok (e, tail) := by
  obtain ⟨head, htook, -, hparse, -⟩ := took_of_element h
  obtain ⟨head', hhead', hspelled⟩ := Element.exists_spelling_of_parse hparse
  obtain rfl : head = head' := by
    have heq := htook.rest
    rw [hhead'] at heq
    exact (List.append_cancel_right heq).symm
  exact ⟨head, htook, hspelled⟩

/-! ## Walking through a sequence -/

variable {c : Cursor} {r r' : Reader} {e : Element} {es : List Element}

/-- A walk through a sequence takes nothing exactly if it begins at the end of the sequence. -/
theorem walk_eq_ok_nil_iff : walk c r = (.ok [], r') ↔ r.total = c.stop ∧ r = r' := by
  rw [walk, ← Cursor.hasMore_eq_false_iff]
  split
  · next hmore => simp [hmore]
  · next hmore => simp [hmore]
  · next hmore =>
    simp only [hmore, Except.ok.injEq, Bool.true_eq_false, false_and, iff_false]
    split
    · simp
    · split <;> simp

/-- Before the end a walk begins with the member that comes next, and goes on from there. -/
theorem walk_of_element (hlt : r.total < c.stop) (he : Runs element r e r') :
    walk c r =
      match walk c r' with
      | (.error fault, r'') => (.error fault, r'')
      | (.ok es, r'') => (.ok (e :: es), r'') := by
  have h := Cursor.hasMore_eq_true_iff.2 hlt
  rw [walk]
  split
  · next hmore => cases h.symm.trans hmore
  · next hmore => cases h.symm.trans hmore
  split
  · next htaken => cases he.symm.trans htaken
  · next htaken =>
    cases he.symm.trans htaken
    rfl

/-- A walk through a sequence takes a member and others exactly if it begins before the end, the
member comes next, and the others are taken on a walk from there. -/
theorem walk_eq_ok_cons_iff : walk c r = (.ok (e :: es), r') ↔
    r.total < c.stop ∧ ∃ r₁, Runs element r e r₁ ∧ walk c r₁ = (.ok es, r') := by
  constructor
  · intro h
    -- of the ways in which a walk can begin, one alone ends with a member
    rw [walk] at h
    split at h
    · cases h
    · cases h
    next hmore =>
    split at h
    · cases h
    next e' r₁ he =>
    split at h
    · cases h
    next hrest =>
    cases h
    exact ⟨Cursor.hasMore_eq_true_iff.1 hmore, r₁, he, hrest⟩
  · rintro ⟨hlt, r₁, he, hrest⟩
    rw [walk_of_element hlt he, hrest]

/-- A walk that succeeds ends at the end of the sequence. -/
theorem took_of_walk (h : walk c r = (.ok es, r')) :
    ∃ bytes, r.Took bytes r' ∧ r'.total = c.stop := by
  induction es generalizing r with
  | nil =>
    obtain ⟨hstop, rfl⟩ := walk_eq_ok_nil_iff.1 h
    exact ⟨[], ⟨rfl, rfl, rfl⟩, hstop⟩
  | cons e es ih =>
    obtain ⟨-, r₁, he, hes⟩ := walk_eq_ok_cons_iff.1 h
    obtain ⟨head, htook, -⟩ := spelled_of_element he
    obtain ⟨bytes, htook', hstop⟩ := ih hes
    exact ⟨head ++ bytes, htook.trans htook', hstop⟩

/-- Where the bytes up to the end of a sequence are there, and are not more than the reader accepts
in one element, a walk succeeds exactly if it begins before the end and these bytes split into
elements, which are the ones taken. -/
theorem exists_walk_iff (hthere : c.stop - r.total ≤ r.rest.length)
    (hlimit : c.stop - r.total ≤ r.limit) :
    (∃ r', walk c r = (.ok es, r')) ↔
      r.total ≤ c.stop ∧ Element.parseAll (r.rest.take (c.stop - r.total)) = .ok es := by
  induction es generalizing r with
  | nil =>
    simp only [walk_eq_ok_nil_iff, exists_and_left, exists_eq', and_true,
      Element.parseAll_eq_ok_nil_iff, List.take_eq_nil_iff]
    constructor
    · intro heq
      exact ⟨heq.le, .inl (by omega)⟩
    · rintro ⟨hle, hzero | hnil⟩
      · omega
      · rw [hnil, List.length_nil] at hthere
        omega
  | cons e es ih =>
    simp only [walk_eq_ok_cons_iff, Element.parseAll_eq_ok_cons_iff]
    constructor
    · rintro ⟨r', hlt, r₁, he, hes⟩
      have hgrows := total_lt_of_element he
      obtain ⟨head, htook, hspelled⟩ := spelled_of_element he
      have htotal := htook.total
      have hlength := htook.length_eq
      have hrest := htook.limit
      obtain ⟨hle, hsplit⟩ := (ih (by omega) (by omega)).1 ⟨r', hes⟩
      refine ⟨hlt.le, r₁.rest.take (c.stop - r₁.total), ?_, hsplit⟩
      rw [htook.rest, List.take_append, List.take_of_length_le (by omega)]
      rw [show c.stop - r.total - head.length = c.stop - r₁.total by omega]
      exact hspelled _
    · rintro ⟨hle, rest, hparse, hsplit⟩
      have hwhole := Element.parse_append hparse (r.rest.drop (c.stop - r.total))
      rw [List.take_append_drop] at hwhole
      -- the member takes no more than the bytes up to the end
      obtain ⟨bytes, hbytes, hencode⟩ := Element.exists_prefix_of_parse hparse
      have hcontent := e.length_content_lt
      have hsize := congrArg List.length hbytes
      rw [List.length_take_of_le hthere, List.length_append] at hsize
      obtain ⟨r₁, he⟩ := exists_element hwhole (by omega)
      have hgrows := total_lt_of_element he
      obtain ⟨head, htook, hspelled⟩ := spelled_of_element he
      have hrest : r₁.rest = rest ++ r.rest.drop (c.stop - r.total) := by
        have hparse' := hspelled r₁.rest
        rw [← htook.rest, hwhole, Except.ok.injEq, Prod.mk.injEq] at hparse'
        exact hparse'.2.symm
      have hlength := congrArg List.length hrest
      rw [List.length_append, List.length_drop] at hlength
      have htotal := htook.length_eq
      have hsame := htook.limit
      have hsplit' : Element.parseAll (r₁.rest.take (c.stop - r₁.total)) = .ok es := by
        rwa [hrest, List.take_left' (by omega)]
      obtain ⟨r', hes⟩ := (ih (by omega) (by omega)).2 ⟨by omega, hsplit'⟩
      exact ⟨r', by omega, r₁, he, hes⟩

/-! ## Headers of sequences -/

theorem runs_begin_iff : Runs begin r c r' ↔
    ∃ tag n, Runs header r (some (tag, n)) r' ∧ c = ⟨tag, n, r'.total + n⟩ := by
  unfold begin
  constructor
  · intro h
    rcases runs_bind_iff.1 h with ⟨header?, r₁, hheader, h⟩
    cases header? with
    | none => cases runs_throw_iff.1 h
    | some x =>
      rcases x with ⟨tag, n⟩
      dsimp only at h
      rw [runs_get_bind_iff] at h
      rcases runs_pure_iff.1 h with ⟨rfl, rfl⟩
      exact ⟨tag, n, hheader, rfl⟩
  · rintro ⟨tag, n, hheader, rfl⟩
    exact runs_bind_iff.2 ⟨_, _, hheader, runs_get_bind_iff.2 (runs_pure_iff.2 ⟨rfl, rfl⟩)⟩

/-- The header of an element that was written is taken, and the content is left. -/
theorem exists_begin {tail : List UInt8} (hrest : r.rest = e.encode ++ tail)
    (hlimit : e.content.length ≤ r.limit) (hshort : e.content.length < 2 ^ 32) :
    ∃ r₁, Runs begin r ⟨e.tag, e.content.length, r.total + e.encode.length⟩ r₁ ∧
      r₁.rest = e.content ++ tail ∧ r₁.limit = r.limit ∧
      r₁.total + e.content.length = r.total + e.encode.length := by
  have hbody : r.rest = e.tag :: (Length.encode e.content.length ++ (e.content ++ tail)) := by
    rw [hrest, Element.encode, List.cons_append, List.append_assoc]
  obtain ⟨r₁, hheader, hleft⟩ := exists_header hbody (Length.decode_encode hshort _) hlimit
  obtain ⟨head, htook, -⟩ := took_of_header hheader
  have hlength := htook.length_eq
  rw [hleft, hrest, List.length_append, List.length_append] at hlength
  have htotal : r₁.total + e.content.length = r.total + e.encode.length := by omega
  refine ⟨r₁, runs_begin_iff.2 ⟨_, _, hheader, ?_⟩, hleft, htook.limit, htotal⟩
  rw [htotal]

/-- Walking through a sequence agrees with splitting its content, for every element whose content
the reader accepts and whose length fits the four bytes that are read of one, whatever follows it.
The walk succeeds exactly with the members that the content splits into, and then it ends behind the
element. -/
theorem walk_agrees_with_members {tail : List UInt8} (hrest : r.rest = e.encode ++ tail)
    (hlimit : e.content.length ≤ r.limit) (hshort : e.content.length < 2 ^ 32) :
    ∃ c r₁, Runs begin r c r₁ ∧ c.tag = e.tag ∧ c.length = e.content.length ∧
      (∀ es, (walk c r₁).1 = .ok es ↔ e.members = .ok es) ∧
      (∀ es, e.members = .ok es → ∃ r₂, walk c r₁ = (.ok es, r₂) ∧ r₂.rest = tail ∧
        r₂.total = r.total + e.encode.length) ∧
      (∀ fault, e.members = .error fault → ∃ fault', (walk c r₁).1 = .error fault') := by
  obtain ⟨r₁, hbegin, hleft, hsame, htotal⟩ := exists_begin hrest hlimit hshort
  refine ⟨_, r₁, hbegin, rfl, rfl, ?_⟩
  generalize hc : (⟨e.tag, e.content.length, r.total + e.encode.length⟩ : Cursor) = c
  have hstop : c.stop = r.total + e.encode.length := by rw [← hc]
  have hroom : c.stop - r₁.total = e.content.length := by omega
  have hwalk (es : List Element) : (∃ r₂, walk c r₁ = (.ok es, r₂)) ↔ e.members = .ok es := by
    rw [exists_walk_iff (by rw [hroom, hleft]; simp) (by omega), hroom, hleft,
      List.take_left' rfl, Element.members]
    exact and_iff_right (by omega)
  have hvalue (es : List Element) : (walk c r₁).1 = .ok es ↔ e.members = .ok es := by
    rw [← hwalk]
    constructor
    · intro h
      exact ⟨(walk c r₁).2, Prod.ext h rfl⟩
    · rintro ⟨r₂, h⟩
      rw [h]
  refine ⟨hvalue, ?_, ?_⟩
  · intro es hes
    obtain ⟨r₂, h⟩ := (hwalk es).2 hes
    obtain ⟨bytes, htook, hend⟩ := took_of_walk h
    have hlen : bytes.length = e.content.length := by
      have := htook.total
      omega
    have hsplit := htook.rest
    rw [hleft] at hsplit
    exact ⟨r₂, h, (List.append_inj_right hsplit hlen.symm).symm, hend.trans hstop⟩
  · intro fault hfault
    cases hw : (walk c r₁).1 with
    | error fault' => exact ⟨fault', rfl⟩
    | ok es =>
      have hes := (hvalue es).1 hw
      rw [hfault] at hes
      cases hes

/-- A null and an octet string are found in a sequence that comes in two pieces, with the rest left.
Where the octet string lacks two bytes that follow the sequence, the walk fails. -/
theorem walk_of_lacking_member :
    let e (n : UInt8) : Element := ⟨0x30, [0x05, 0x00, 0x04, n, 0x61]⟩
    let r (n : UInt8) : Reader :=
      ⟨⟨[.data 0x05 [0x05], .interruption, .data 0x00 [0x04, n, 0x61, 0x62, 0x63]], .endOfInput⟩,
        some 0x30, 0, 5⟩
    (∀ n, (r n).rest = (e n).encode ++ [0x62, 0x63]) ∧
      (∃ c r₁ r₂, Runs begin (r 1) c r₁ ∧
        walk c r₁ = (.ok [Element.null, Element.octetString [0x61]], r₂) ∧
        r₂.rest = [0x62, 0x63] ∧ r₂.total = 7) ∧
      (e 3).members = .error (.truncated 5 3) ∧
      ∃ c r₁ fault, Runs begin (r 3) c r₁ ∧ (walk c r₁).1 = .error fault := by
  intro e r
  have hrest (n : UInt8) : (r n).rest = (e n).encode ++ [0x62, 0x63] := by
    have hlength : Length.encode 5 = [5] := by decide +kernel
    show _ = _ :: (Length.encode 5 ++ _) ++ _
    rw [hlength]
    rfl
  have hgood : (e 1).members = .ok [Element.null, Element.octetString [0x61]] := by decide +kernel
  have hlacking : (e 3).members = .error (.truncated 5 3) := by decide +kernel
  obtain ⟨c, r₁, hbegin, -, -, -, hfound, -⟩ :=
    walk_agrees_with_members (hrest 1) (by decide) (by decide)
  obtain ⟨r₂, hwalk, hleft, htotal⟩ := hfound _ hgood
  obtain ⟨c', r₁', hbegin', -, -, -, -, hrefused⟩ :=
    walk_agrees_with_members (hrest 3) (by decide) (by decide)
  obtain ⟨fault, hwalk'⟩ := hrefused _ hlacking
  refine ⟨hrest, ⟨c, r₁, r₂, hbegin, hwalk, hleft, ?_⟩, hlacking, c', r₁', fault, hbegin', hwalk'⟩
  rw [htotal]
  decide +kernel

/-- The header of an element that is too long for a length of four bytes is refused. -/
theorem fails_begin_of_le {tail : List UInt8} (hend : r.source.ending = .endOfInput)
    (hrest : r.rest = e.encode ++ tail) (hle : 2 ^ 32 ≤ e.content.length)
    (hlt : e.content.length < 2 ^ 64) :
    Fails begin r (.lengthTooLarge (Length.byteCount e.content.length)) := by
  have hbody : r.rest = e.tag :: (Length.encode e.content.length ++ (e.content ++ tail)) := by
    rw [hrest, Element.encode, List.cons_append, List.append_assoc]
  exact (fails_header_of_decode hend hbody (Length.decode_encode_of_le hle hlt _)).bind _

/-- A sequence of one member that is just short enough to be read is itself too long, so that it
splits into its member, but cannot be walked through. -/
theorem not_walked_of_long_sequence :
    let member := Element.octetString (List.replicate (2 ^ 32 - 1) 0)
    let e := Element.sequence [member]
    let r := ofSource (.ofBytes e.encode) (2 ^ 33)
    r.rest = e.encode ++ [] ∧ e.content.length ≤ r.limit ∧ e.members = .ok [member] ∧
      Fails begin r (.lengthTooLarge 5) := by
  intro member e r
  have hcontent : member.content.length = 2 ^ 32 - 1 := List.length_replicate
  have hshort : member.content.length < 2 ^ 32 := by omega
  have hsame : e.content = member.encode := List.append_nil _
  have hlength : e.content.length = 2 ^ 32 + 5 := by
    have hsize : Length.encodedSize (2 ^ 32 - 1) = 5 := by decide +kernel
    rw [hsame, Element.length_encode, hcontent, hsize]
    rfl
  have hrest : r.rest = e.encode ++ [] := by rw [List.append_nil]; exact rest_ofSource _ _
  have hcount : Length.byteCount e.content.length = 5 := by
    rw [hlength]
    decide +kernel
  refine ⟨hrest, ?_, ?_, ?_⟩
  · rw [hlength]
    show _ ≤ 2 ^ 33
    omega
  · rw [Element.members, hsame]
    have hparse := Element.parse_encode hshort []
    rw [List.append_nil] at hparse
    exact Element.parseAll_eq_ok_cons_iff.2 ⟨[], hparse, Element.parseAll_eq_ok_nil_iff.2 rfl⟩
  · rw [← hcount]
    exact fails_begin_of_le rfl hrest (by omega) (by omega)

end Reader
end Ldap.Ber
