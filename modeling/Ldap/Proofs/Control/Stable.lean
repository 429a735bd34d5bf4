import Ldap.Proofs.Control.Values

/-!
# Controls that are read twice

A value of a registered type leaves out what its control may hold beyond it: a criticality that
means nothing, blanks around a number, lengths and truths in other spellings, a value that is
ignored. `AnyControl.reread_same` says that nothing is lost after that: the control that stands
for what was read is read as the same value, under the same identifier.

For every type it is shown that what its decoder accepts is written in no more room than it was read
from (`Control.short_of_members`), so that it can be read again, and that it is then read as the
same value (`ControlType.Stable`).
-/

namespace Ldap

open Ber (Element Tag)
open ControlType (ofControl toControl Restored)

/-! ## Values that are written again -/

/-- What is read as an element has no more content than a length can tell of. -/
theorem Ber.Element.short_of_decode {bytes : List UInt8} {e : Element}
    (h : Element.decode bytes = .ok e) : e.Short := by
  obtain ⟨length, hspelled, -⟩ := Element.decode_eq_ok_iff_spelled.1 h
  exact hspelled.encodedSize_le.1

namespace Control

variable {c : Control} {oid : String} {critical : Bool}

/-- A control has an element in it if it has a value and this is one element with nothing behind it.
-/
theorem valueElement_eq_ok_iff {e : Element} :
    c.valueElement = .ok e ↔ ∃ bytes, c.value = some bytes ∧ Element.decode bytes = .ok e := by
  simp only [valueElement, bind_eq_ok_iff, liftM_eq_ok_iff, requiredValue]
  cases c.value <;> simp

/-- An element that was read as the value of a control is a short one. -/
theorem short_of_valueElement {e : Element} (h : c.valueElement = .ok e) : e.Short := by
  obtain ⟨bytes, -, hbytes⟩ := valueElement_eq_ok_iff.1 h
  exact Element.short_of_decode hbytes

/-- A short element makes a control that can be read. -/
theorem short_withElement {e : Element} (h : e.Short) : (withElement oid critical e).Short := by
  intro e' he'
  have hsame : e.encode = e'.encode := Option.some.inj he'
  exact h.of_le (by rw [hsame])

/-- An element is written again in no more room than it was read from, and then it is short. -/
theorem short_of_element {e e' : Element} (h : c.valueElement = .ok e)
    (hle : e'.encode.length ≤ e.encode.length) : (withElement oid critical e').Short :=
  short_withElement ((short_of_valueElement h).of_le hle)

/-- Members that were read from a control stand in a sequence, and there are as many of them as the
reader wants. -/
theorem exists_of_valueMembers {context : String} {min : Nat} {max : Option Nat}
    {es : List Element} (h : c.valueMembers context min max = .ok es) :
    (∃ e, c.valueElement = .ok e ∧ e.Holds .sequence es) ∧ min ≤ es.length ∧
      ∀ m ∈ max, es.length ≤ m := by
  simp only [valueMembers, bind_eq_ok_iff, liftM_eq_ok_iff, checkCount_eq_ok_iff,
    pure_eq_ok_iff] at h
  obtain ⟨e, he, members, hes, -, hcount, rfl⟩ := h
  exact ⟨⟨e, he, Element.asSequenceTagged_eq_ok_iff.1 hes⟩, hcount⟩

/-- Members are written again in no more room than they were read from. -/
theorem short_of_members {context : String} {min : Nat} {max : Option Nat} {es es' : List Element}
    (h : c.valueMembers context min max = .ok es) (hle : Element.size es' ≤ Element.size es) :
    (withElement oid critical (.sequence es')).Short := by
  obtain ⟨⟨e, he, hes⟩, -⟩ := exists_of_valueMembers h
  exact short_of_element he (hes.constructed_le .sequence hle)

end Control

/-- What the decoder of a type accepts is read back from the control that stands for it, and this
control has the identifier of the type. -/
structure ControlType.Stable (α : Type) [ControlType α] : Prop where
  oid : ∀ x : α, (toControl x).oid = ControlType.oid α
  restored : ∀ {c : Control} {x : α}, ofControl c = .ok x → Restored x

open ControlType (Stable)
open Control (short_of_members short_of_element)

/-! ## Plain types -/

/-- A control without a value has nothing to lose but its criticality, which a marker keeps. -/
theorem Marker.stable (kind : MarkerKind) : Stable (Marker kind) where
  oid _ := rfl
  restored _ := rfl

/-- Any byte but zero is read as true, and true is written with one of them. -/
theorem Subentries.stable : Stable Subentries where
  oid _ := rfl
  restored {c s} h := by
    obtain ⟨e, he, h⟩ := bind_eq_ok_iff.1 h
    simp only [bind_eq_ok_iff, liftM_eq_ok_iff, pure_eq_ok_iff] at h
    obtain ⟨visible, hvisible, rfl⟩ := h
    exact Subentries.restored (short_of_element he (Faithful.boolean.shrinks hvisible))

/-- The identifier of a transaction is the value as it is. The control that stands for it is
critical, whatever the one was that it was read from. -/
theorem TransactionSpecification.stable : Stable TransactionSpecification where
  oid _ := rfl
  restored _ := rfl

/-- The size may have been spelled with more bytes than it needs. -/
theorem PagedResults.stable : Stable PagedResults where
  oid _ := rfl
  restored {c p} h := by
    obtain ⟨es, hes, h⟩ := bind_eq_ok_iff.1 h
    split at h
    · next size cookie =>
      simp only [bind_eq_ok_iff, liftM_eq_ok_iff, pure_eq_ok_iff] at h
      obtain ⟨n, hsize, bytes, hcookie, rfl⟩ := h
      have hlen := Faithful.int32.shrinks hsize
      have hlen' := Faithful.octets.shrinks hcookie
      refine PagedResults.restored (short_of_members hes ?_)
      simp only [Element.size_cons, Element.size_nil]
      omega
    · cases h

theorem PersistentSearch.stable : Stable PersistentSearch where
  oid _ := rfl
  restored {c p} h := by
    obtain ⟨es, hes, h⟩ := bind_eq_ok_iff.1 h
    split at h
    · next bits changesOnly notify =>
      simp only [bind_eq_ok_iff, liftM_eq_ok_iff, pure_eq_ok_iff] at h
      obtain ⟨n, hbits, b, honly, b', hnotify, rfl⟩ := h
      have hlen := Faithful.int32.shrinks hbits
      have hlen' := Faithful.boolean.shrinks honly
      have hlen'' := Faithful.boolean.shrinks hnotify
      refine PersistentSearch.restored (short_of_members hes ?_)
      simp only [Element.size_cons, Element.size_nil]
      omega
    · cases h

theorem DirSync.stable : Stable DirSync where
  oid _ := rfl
  restored {c d} h := by
    obtain ⟨es, hes, h⟩ := bind_eq_ok_iff.1 h
    split at h
    · next flags maxValues cookie =>
      simp only [bind_eq_ok_iff, liftM_eq_ok_iff, pure_eq_ok_iff] at h
      obtain ⟨n, hflags, m, hmax, bytes, hcookie, rfl⟩ := h
      have hlen := Faithful.int32.shrinks hflags
      have hlen' := Faithful.int32.shrinks hmax
      have hlen'' := Faithful.octets.shrinks hcookie
      refine DirSync.restored (short_of_members hes ?_)
      simp only [Element.size_cons, Element.size_nil]
      omega
    · cases h

/-! ## Entries that were read -/

/-- Nobody looks at the tag over the members of an entry in a control. What is written again has the
tag of an entry, in which there is as much room. -/
theorem Entry.length_encode_le_of_ofMembers {e : Element} {es : List Element} {r : Entry}
    (hes : e.members = .ok es) (h : ofMembers es = .ok r) :
    r.encode.encode.length ≤ e.encode.length := by
  -- under the tag of an entry the same members are read as the same entry
  have htag : decode ⟨tag, e.content⟩ = .ok r := by
    have hmembers : (Element.mk tag e.content).asSequenceTagged tag = .ok es :=
      Element.asSequenceTagged_eq_ok_iff.2 ⟨rfl, hes⟩
    rw [decode, hmembers, liftM_ok, ok_bind, h]
  exact (Entry.faithful.shrinks htag).trans (Element.length_encode_mono le_rfl)

/-- An entry is written again with its own tag, under which it is read as before. -/
theorem ReadEntryResponse.stable (time : ReadTime) : Stable (ReadEntryResponse time) where
  oid _ := rfl
  restored {c r} h := by
    obtain ⟨e, he, h⟩ := bind_eq_ok_iff.1 h
    simp only [bind_eq_ok_iff, liftM_eq_ok_iff, pure_eq_ok_iff] at h
    obtain ⟨es, hes, entry, hentry, rfl⟩ := h
    exact ReadEntryResponse.restored
      (short_of_element he (Entry.length_encode_le_of_ofMembers hes hentry))

/-! ## Order and windows -/

namespace SortKey

theorem size_optional (k : SortKey) :
    Element.size k.optional = Element.size (k.rule.toList.map (.stringTagged ruleTag)) +
      Element.size (if k.reverse then [.booleanTagged reverseTag true] else []) :=
  Element.size_append _ _

/-- What stands behind the attribute is written again in no more room. -/
theorem size_optional_le {es : List Element} {attr : String} {k : SortKey}
    (h : es.foldlM decodeOptional ⟨attr, none, false⟩ = .ok k) :
    k.attr = attr ∧ Element.size k.optional ≤ Element.size es := by
  have hlast := foldlM_invariant (n := 0)
    (motive := fun n (k : SortKey) => k.attr = attr ∧ Element.size k.optional ≤ n) ?_
    ⟨rfl, by simp [optional]⟩ h
  · simpa using hlast
  · rintro n k e k' ⟨hattr, hsize⟩ hstep
    rw [size_optional] at hsize
    unfold decodeOptional at hstep
    -- a later rule takes the place of an earlier one, and so does a later direction
    split at hstep
    · simp only [bind_eq_ok_iff, liftM_eq_ok_iff, pure_eq_ok_iff] at hstep
      obtain ⟨rule, hrule, rfl⟩ := hstep
      have hlen := (Faithful.stringTagged ruleTag).shrinks hrule
      refine ⟨hattr, ?_⟩
      rw [size_optional]
      simp only [Option.toList_some, List.map_cons, List.map_nil, Element.size_cons,
        Element.size_nil]
      omega
    · split at hstep
      · simp only [bind_eq_ok_iff, liftM_eq_ok_iff, pure_eq_ok_iff] at hstep
        obtain ⟨reverse, hreverse, rfl⟩ := hstep
        have hlen := (Faithful.booleanTagged reverseTag).shrinks hreverse
        refine ⟨hattr, ?_⟩
        rw [size_optional]
        cases reverse with
        | false =>
          simp only [Bool.false_eq_true, if_false, Element.size_nil]
          omega
        | true =>
          simp only [if_true, Element.size_cons, Element.size_nil]
          omega
      · cases hstep

/-- A key is written again in no more room, with one rule and one direction even if several were
given. -/
theorem length_encode_le_of_decode {e : Element} {k : SortKey} (h : decode e = .ok k) :
    k.encode.encode.length ≤ e.encode.length := by
  obtain ⟨attr, rest, text, he, -, hattr, hrest⟩ := decode_eq_ok_iff.1 h
  obtain ⟨rfl, hsize⟩ := size_optional_le hrest
  have hlen := Faithful.string.shrinks hattr
  refine he.constructed_le .sequence ?_
  show Element.size (.string k.attr :: k.optional) ≤ _
  rw [Element.size_cons, Element.size_cons]
  omega

/-- Every key can be written, and what was read as a key can be written and read again. -/
theorem faithful : Faithful encode (fun e k => decode e = .ok k) fun _ => True where
  reads _ := decode_encode
  good _ := trivial
  shrinks := length_encode_le_of_decode

end SortKey

/-- An empty list of keys would not be read again, but a request that was read has a key. -/
theorem SortRequest.stable : Stable SortRequest where
  oid _ := rfl
  restored {c r} h := by
    obtain ⟨es, hes, h⟩ := bind_eq_ok_iff.1 h
    simp only [bind_eq_ok_iff, pure_eq_ok_iff, mapM_eq_ok_iff] at h
    obtain ⟨keys, hkeys, rfl⟩ := h
    refine (SortRequest.restored_iff (short_of_members hes (SortKey.faithful.size_le hkeys))).2 ?_
    -- there is a key, as there is a member
    obtain ⟨-, hmin, -⟩ := Control.exists_of_valueMembers hes
    rw [hkeys.length_eq] at hmin
    exact List.length_pos_iff.1 hmin

/-- A result is written again with the attribute if one was given. -/
theorem SortResponse.stable : Stable SortResponse where
  oid _ := rfl
  restored {c r} h := by
    obtain ⟨es, hes, h⟩ := bind_eq_ok_iff.1 h
    split at h
    · next code =>
      simp only [bind_eq_ok_iff, liftM_eq_ok_iff, pure_eq_ok_iff] at h
      obtain ⟨n, hcode, rfl⟩ := h
      have hlen := Faithful.enumerated.shrinks hcode
      refine SortResponse.restored (short_of_members hes ?_)
      simpa using hlen
    · next code attr rest _ =>
      simp only [bind_eq_ok_iff, liftM_eq_ok_iff, pure_eq_ok_iff] at h
      obtain ⟨n, hcode, text, hattr, rfl⟩ := h
      have hlen := Faithful.enumerated.shrinks hcode
      have hlen' := (Faithful.stringTagged attrTag).shrinks hattr
      refine SortResponse.restored (short_of_members hes ?_)
      simp only [Option.toList_some, List.map_cons, List.map_nil, Element.size_cons,
        Element.size_nil]
      omega
    · cases h

/-- Of the members behind the first one nothing is kept, so that what is kept needs no more room. -/
theorem size_le_of_firstOctets? {es : List Element} {bytes : Option (List UInt8)}
    (h : firstOctets? es = .ok bytes) :
    Element.size (bytes.toList.map .octetString) ≤ Element.size es := by
  cases es with
  | nil =>
    cases h
    simp
  | cons e es =>
    simp only [firstOctets?, bind_eq_ok_iff, liftM_eq_ok_iff, pure_eq_ok_iff] at h
    obtain ⟨a, ha, rfl⟩ := h
    have hlen := Faithful.octets.shrinks ha
    simp only [Option.toList_some, List.map_cons, List.map_nil, Element.size_cons,
      Element.size_nil]
    omega

/-- A target keeps its tag. An offset and a count are written again in no more room, the bytes of a
value as they were. -/
theorem ViewTarget.length_encode_le_of_decode {e : Element} {t : ViewTarget}
    (h : decode e = .ok t) : t.encode.encode.length ≤ e.encode.length := by
  unfold decode at h
  split at h
  · simp only [bind_eq_ok_iff, liftM_eq_ok_iff] at h
    obtain ⟨es, hes, -, -, h⟩ := h
    split at h
    · next o count =>
      simp only [bind_eq_ok_iff, liftM_eq_ok_iff, pure_eq_ok_iff] at h
      obtain ⟨n, ho, m, hcount, rfl⟩ := h
      have hlen := Faithful.int32.shrinks ho
      have hlen' := Faithful.int32.shrinks hcount
      refine (Element.asSequenceTagged_eq_ok_iff.1 hes).constructed_le offsetTag ?_
      simp only [Element.size_cons, Element.size_nil]
      omega
    · cases h
  · split at h
    · cases pure_eq_ok_iff.1 h
      exact Element.length_encode_mono le_rfl
    · cases h

/-- The target is read first, though it stands third. -/
theorem ViewRequest.stable : Stable ViewRequest where
  oid _ := rfl
  restored {c r} h := by
    obtain ⟨es, hes, h⟩ := bind_eq_ok_iff.1 h
    split at h
    · next before after target rest =>
      simp only [bind_eq_ok_iff, liftM_eq_ok_iff, pure_eq_ok_iff] at h
      obtain ⟨t, htarget, n, hbefore, m, hafter, context, hcontext, rfl⟩ := h
      have hlen := ViewTarget.length_encode_le_of_decode htarget
      have hlen' := Faithful.int32.shrinks hbefore
      have hlen'' := Faithful.int32.shrinks hafter
      have hrest := size_le_of_firstOctets? hcontext
      refine ViewRequest.restored (short_of_members hes ?_)
      simp only [Element.size_cons]
      omega
    · cases h

theorem ViewResponse.stable : Stable ViewResponse where
  oid _ := rfl
  restored {c r} h := by
    obtain ⟨es, hes, h⟩ := bind_eq_ok_iff.1 h
    split at h
    · next position count code rest =>
      simp only [bind_eq_ok_iff, liftM_eq_ok_iff, pure_eq_ok_iff] at h
      obtain ⟨n, hposition, m, hcount, k, hcode, context, hcontext, rfl⟩ := h
      have hlen := Faithful.int32.shrinks hposition
      have hlen' := Faithful.int32.shrinks hcount
      have hlen'' := Faithful.enumerated.shrinks hcode
      have hrest := size_le_of_firstOctets? hcontext
      refine ViewResponse.restored (short_of_members hes ?_)
      simp only [Element.size_cons]
      omega
    · cases h

/-! ## Synchronization -/

/-- A flag is written again in no more room, and not at all if it has its default. -/
theorem size_le_of_decodeFlag {context : String} {default flag : Bool} {es : List Element}
    {cookie cookie' : Option (List UInt8)}
    (h : decodeFlag context default cookie es = .ok (cookie', flag)) :
    cookie = cookie' ∧
      Element.size (if flag = default then [] else [.boolean flag]) ≤ Element.size es := by
  cases es with
  | nil =>
    cases h
    simp
  | cons e es =>
    simp only [decodeFlag] at h
    split at h
    · obtain ⟨b, hb, h⟩ := bind_eq_ok_iff.1 h
      split at h
      · cases pure_eq_ok_iff.1 h
        have hlen := Faithful.boolean.shrinks (liftM_eq_ok_iff.1 hb)
        refine ⟨rfl, ?_⟩
        split
        · simp
        · simpa using hlen
      · cases h
    · cases h

/-- A cookie and a flag are written again in no more room, without the flag if it has its default.
-/
theorem size_le_of_decodeCookieFlag {context : String} {default flag : Bool} {es : List Element}
    {cookie : Option (List UInt8)} (h : decodeCookieFlag context default es = .ok (cookie, flag)) :
    Element.size (encodeCookieFlag default cookie flag) ≤ Element.size es := by
  unfold encodeCookieFlag
  rw [Element.size_append]
  cases es with
  | nil =>
    cases h
    simp
  | cons e es =>
    simp only [decodeCookieFlag] at h
    split at h
    · obtain ⟨rfl, hflag⟩ := size_le_of_decodeFlag h
      have hlen : (Element.octetString e.content).encode.length ≤ e.encode.length :=
        Element.length_encode_mono le_rfl
      simp only [Option.toList_some, List.map_cons, List.map_nil, Element.size_cons,
        Element.size_nil]
      omega
    · obtain ⟨hcookie, hflag⟩ := size_le_of_decodeFlag h
      subst hcookie
      simpa using hflag

/-- A mode is written with the number that it was read from. -/
theorem SyncMode.value_of_ofValue? {v : Int32} {m : SyncMode} (h : ofValue? v = some m) :
    m.value = v := by
  simpa using List.find?_some h

theorem SyncChange.value_of_ofValue? {v : Int32} {c : SyncChange} (h : ofValue? v = some c) :
    c.value = v := by
  simpa using List.find?_some h

/-- An identifier of an entry is its sixteen bytes. -/
theorem EntryUuid.bytes_of_ofBytes? {bytes : List UInt8} {u : EntryUuid}
    (h : ofBytes? bytes = some u) : u.bytes = bytes := by
  unfold ofBytes? at h
  split at h
  · cases h
    rfl
  · cases h

theorem SyncRequest.stable : Stable SyncRequest where
  oid _ := rfl
  restored {c r} h := by
    obtain ⟨es, hes, h⟩ := bind_eq_ok_iff.1 h
    split at h
    · next mode rest =>
      obtain ⟨value, hvalue, h⟩ := bind_eq_ok_iff.1 h
      split at h
      · cases h
      · next m hm =>
        simp only [bind_eq_ok_iff, pure_eq_ok_iff] at h
        obtain ⟨⟨cookie, reload⟩, hrest, rfl⟩ := h
        obtain rfl := SyncMode.value_of_ofValue? hm
        have hlen := Faithful.enumerated.shrinks (liftM_eq_ok_iff.1 hvalue)
        have hsize := size_le_of_decodeCookieFlag hrest
        refine SyncRequest.restored (short_of_members hes ?_)
        simp only [Element.size_cons]
        omega
    · cases h

/-- The change, the identifier and the cookie are all kept. -/
theorem SyncState.stable : Stable SyncState where
  oid _ := rfl
  restored {c x} h := by
    obtain ⟨es, hes, h⟩ := bind_eq_ok_iff.1 h
    split at h
    · next change uuid rest =>
      obtain ⟨value, hvalue, h⟩ := bind_eq_ok_iff.1 h
      split at h
      · cases h
      · next kind hkind =>
        obtain ⟨bytes, hbytes, h⟩ := bind_eq_ok_iff.1 h
        split at h
        · cases h
        · next id hid =>
          simp only [bind_eq_ok_iff, pure_eq_ok_iff] at h
          obtain ⟨cookie, hcookie, rfl⟩ := h
          obtain rfl := SyncChange.value_of_ofValue? hkind
          obtain rfl := EntryUuid.bytes_of_ofBytes? hid
          have hlen := Faithful.enumerated.shrinks (liftM_eq_ok_iff.1 hvalue)
          have hlen' := Faithful.octets.shrinks (liftM_eq_ok_iff.1 hbytes)
          have hsize := size_le_of_firstOctets? hcookie
          refine SyncState.restored (short_of_members hes ?_)
          simp only [Element.size_cons]
          omega
    · cases h

theorem SyncDone.stable : Stable SyncDone where
  oid _ := rfl
  restored {c d} h := by
    obtain ⟨es, hes, h⟩ := bind_eq_ok_iff.1 h
    simp only [bind_eq_ok_iff, pure_eq_ok_iff] at h
    obtain ⟨⟨cookie, flag⟩, hread, rfl⟩ := h
    exact SyncDone.restored (short_of_members hes (size_le_of_decodeCookieFlag hread))

/-! ## Filters -/

/-- What was read as a filter is expressible and not too deep, so that it is read again. -/
theorem Assertion.stable : Stable Assertion where
  oid _ := rfl
  restored {c a} h := by
    obtain ⟨e, he, h⟩ := bind_eq_ok_iff.1 h
    simp only [bind_eq_ok_iff, pure_eq_ok_iff] at h
    obtain ⟨f, hf, rfl⟩ := h
    exact (Assertion.restored_iff (short_of_element he (Filter.faithful.shrinks hf))).2
      (Filter.faithful.good hf)

/-- Filters that do not select values are refused when the control is read, so none of them is among
those that are written again. -/
theorem MatchedValues.stable : Stable MatchedValues where
  oid _ := rfl
  restored {c m} h := by
    obtain ⟨e, he, h⟩ := bind_eq_ok_iff.1 h
    obtain ⟨es, hes, h⟩ := bind_eq_ok_iff.1 h
    obtain ⟨filters, hread, h⟩ := bind_eq_ok_iff.1 h
    obtain ⟨⟨hne, hsimple⟩, rfl⟩ := MatchedValues.ofFilters_eq_ok_iff.1 h
    replace hread := mapM_eq_ok_iff.1 hread
    have hle : Element.size (Filter.encodeAll filters) ≤ Element.size es := by
      rw [Filter.encodeAll_eq_map]
      exact Filter.faithful.size_le hread
    have hes' := Element.asSequenceTagged_eq_ok_iff.1 (liftM_eq_ok_iff.1 hes)
    refine (MatchedValues.restored_iff
      (short_of_element he (hes'.constructed_le .sequence hle))).2 ⟨hne, fun f hf => ?_⟩
    exact ⟨hsimple f hf, Filter.faithful.forall_good hread f hf⟩

/-! ## Names and changes -/

/-- A name keeps the text that it was read from. -/
theorem Dn.text_of_parse {text : String} {schema : Option Schema} {d : Dn}
    (h : Dn.parse text schema = .ok d) : d.text = text := by
  unfold parse at h
  cases hread : Scan.distinguishedName text with
  | error e =>
    rw [hread] at h
    cases h
  | ok rs =>
    rw [hread] at h
    cases h
    rfl

/-- The name is written as the text that it was read from, and this text is read as the same name.
-/
theorem ProxiedName.stable : Stable ProxiedName where
  oid _ := rfl
  restored {c p} h := by
    obtain ⟨-, -, h⟩ := bind_eq_ok_iff.1 h
    obtain ⟨es, hes, h⟩ := bind_eq_ok_iff.1 h
    split at h
    · next name =>
      simp only [bind_eq_ok_iff, liftM_eq_ok_iff, liftM_name_eq_ok_iff, pure_eq_ok_iff] at h
      obtain ⟨text, hname, d, hd, rfl⟩ := h
      have htext := Dn.text_of_parse hd
      have hlen := Faithful.string.shrinks hname
      refine (ProxiedName.reads_iff (short_of_members hes ?_)).2 (by rw [htext, hd])
      rw [htext]
      simpa using hlen
    · cases h

namespace ChangeNotification

theorem ChangeType.value_of_ofValue? {v : Int32} {c : ChangeType}
    (h : ChangeType.ofValue? v = some c) : c.value = v := by
  simpa using List.find?_some h

/-- A number is the last thing that a notification may hold. -/
theorem of_decodeNumber {change : ChangeType} {previousDn : Option Dn} {es : List Element}
    {n : ChangeNotification} (h : decodeNumber change previousDn es = .ok n) :
    n.change = change ∧ n.previousDn = previousDn ∧
      Element.size (n.number.toList.map fun v => .integer v.toInt) ≤ Element.size es := by
  cases es with
  | nil =>
    cases h
    simp
  | cons e es =>
    simp only [decodeNumber] at h
    split at h
    · obtain ⟨v, hv, h⟩ := bind_eq_ok_iff.1 h
      split at h
      · cases pure_eq_ok_iff.1 h
        have hlen := Faithful.int64.shrinks (liftM_eq_ok_iff.1 hv)
        exact ⟨rfl, rfl, by simpa using hlen⟩
      · cases h
    · cases h

/-- The name in a notification, if there is one, is read from its text. -/
theorem of_decodeTail {change : ChangeType} {es : List Element} {n : ChangeNotification}
    (h : decodeTail change es = .ok n) :
    n.change = change ∧ (∀ d ∈ n.previousDn, Dn.parse d.text none = .ok d) ∧
      Element.size (n.previousDn.toList.map (fun d => .string d.text)
        ++ n.number.toList.map fun v => .integer v.toInt) ≤ Element.size es := by
  cases es with
  | nil =>
    cases h
    simp
  | cons e es =>
    simp only [decodeTail] at h
    split at h
    · obtain ⟨text, htext, h⟩ := bind_eq_ok_iff.1 h
      obtain ⟨d, hd, h⟩ := bind_eq_ok_iff.1 h
      replace hd := liftM_name_eq_ok_iff.1 hd
      obtain ⟨hchange, hname, hsize⟩ := of_decodeNumber h
      have hlen := Faithful.string.shrinks (liftM_eq_ok_iff.1 htext)
      obtain rfl := Dn.text_of_parse hd
      refine ⟨hchange, by simpa [hname] using hd, ?_⟩
      simp only [hname, Option.toList_some, List.map_cons, List.map_nil, List.cons_append,
        List.nil_append, Element.size_cons]
      omega
    · obtain ⟨hchange, hname, hsize⟩ := of_decodeNumber h
      exact ⟨hchange, by simp [hname], by simpa [hname] using hsize⟩

/-- A notification is written with the change and the number as they were read, and with the text of
the name. -/
theorem stable : Stable ChangeNotification where
  oid _ := rfl
  restored {c n} h := by
    obtain ⟨es, hes, h⟩ := bind_eq_ok_iff.1 h
    split at h
    · next change rest =>
      obtain ⟨value, hvalue, h⟩ := bind_eq_ok_iff.1 h
      split at h
      · next kind hkind =>
        obtain ⟨rfl, hname, hsize⟩ := of_decodeTail h
        obtain rfl := ChangeType.value_of_ofValue? hkind
        have hlen := Faithful.enumerated.shrinks (liftM_eq_ok_iff.1 hvalue)
        have hshort : (toControl n).Short := by
          refine short_of_members hes ?_
          rw [List.cons_append, Element.size_cons, Element.size_cons]
          omega
        cases hdn : n.previousDn with
        | none => exact restored_of_none hshort hdn
        | some d =>
          refine (reads_iff_of_some hshort hdn).2 ⟨d, hname d hdn, ?_⟩
          rw [← hdn]
      · cases h
    · cases h

end ChangeNotification

/-! ## Identities and passwords -/

theorem ProxiedIdentity.stable : Stable ProxiedIdentity where
  oid _ := rfl
  restored _ := ProxiedIdentity.restored _

theorem BoundIdentity.stable : Stable BoundIdentity where
  oid _ := rfl
  restored _ := BoundIdentity.restored _

/-- No value of this control means anything, so the one that is written does no harm. -/
theorem PasswordExpired.stable : Stable PasswordExpired where
  oid _ := rfl
  restored _ := rfl

/-- Blanks around the number and zeros before it are not written again. -/
theorem PasswordExpiring.stable : Stable PasswordExpiring where
  oid _ := rfl
  restored _ := PasswordExpiring.restored _

/-! ## The registry -/

namespace AnyControl

/-- What a registered decoder accepts is of a known type and has the identifier that the decoder is
registered under, and so has the control that stands for it, which the decoder reads as the same
value. -/
def Registration.Stable (r : Registration) : Prop :=
  ∀ (c : Control) (a : AnyControl), r.2 c = .ok a →
    a.name?.isSome ∧ a.oid = r.1 ∧ a.control.oid = r.1 ∧ r.2 a.control = .ok a

/-- A decoder is stable with its type if the registry gives the name and the identifier of the type
to what it wraps. -/
theorem stable_register {α : Type} [ControlType α] {wrap : α → AnyControl} (h : Stable α)
    (hname : ∀ x, (wrap x).name?.isSome) (hoid : ∀ x, (wrap x).oid = ControlType.oid α)
    (hcontrol : ∀ x, (wrap x).control = toControl x) : (register wrap).Stable := by
  intro c a hread
  simp only [register] at hread ⊢
  cases hx : (ControlType.ofControl c : Except ProtocolError α) with
  | error e =>
    rw [hx] at hread
    cases hread
  | ok x =>
    rw [hx] at hread
    cases hread
    have hrestored : ControlType.ofControl (toControl x) = .ok x := h.restored hx
    refine ⟨hname x, hoid x, (hcontrol x ▸ h.oid x : (wrap x).control.oid = _), ?_⟩
    rw [hcontrol, hrestored]
    rfl

/-- Every registered decoder is stable. -/
theorem stable_of_mem_registry {r : Registration} (h : r ∈ registry) : r.Stable := by
  simp only [registry, List.mem_append, List.mem_map, List.mem_cons, List.not_mem_nil,
    or_false] at h
  rcases h with ⟨kind, -, rfl⟩ | h
  · exact stable_register (Marker.stable kind) (fun _ => rfl) (fun _ => rfl) fun _ => rfl
  rcases h with rfl | rfl | rfl | rfl | rfl | rfl | rfl | rfl | rfl | rfl | rfl | rfl | rfl | rfl |
    rfl | rfl | rfl | rfl | rfl | rfl | rfl | rfl
  · exact stable_register Subentries.stable (fun _ => rfl) (fun _ => rfl) fun _ => rfl
  · exact stable_register TransactionSpecification.stable (fun _ => rfl) (fun _ => rfl) fun _ => rfl
  · exact stable_register Assertion.stable (fun _ => rfl) (fun _ => rfl) fun _ => rfl
  · exact stable_register MatchedValues.stable (fun _ => rfl) (fun _ => rfl) fun _ => rfl
  · exact stable_register SortRequest.stable (fun _ => rfl) (fun _ => rfl) fun _ => rfl
  · exact stable_register SortResponse.stable (fun _ => rfl) (fun _ => rfl) fun _ => rfl
  · exact stable_register PagedResults.stable (fun _ => rfl) (fun _ => rfl) fun _ => rfl
  · exact stable_register ViewRequest.stable (fun _ => rfl) (fun _ => rfl) fun _ => rfl
  · exact stable_register ViewResponse.stable (fun _ => rfl) (fun _ => rfl) fun _ => rfl
  · exact stable_register PersistentSearch.stable (fun _ => rfl) (fun _ => rfl) fun _ => rfl
  · exact stable_register ChangeNotification.stable (fun _ => rfl) (fun _ => rfl) fun _ => rfl
  · exact stable_register DirSync.stable (fun _ => rfl) (fun _ => rfl) fun _ => rfl
  · exact stable_register SyncRequest.stable (fun _ => rfl) (fun _ => rfl) fun _ => rfl
  · exact stable_register SyncState.stable (fun _ => rfl) (fun _ => rfl) fun _ => rfl
  · exact stable_register SyncDone.stable (fun _ => rfl) (fun _ => rfl) fun _ => rfl
  · exact stable_register (ReadEntryResponse.stable .before) (fun _ => rfl) (fun _ => rfl)
      fun _ => rfl
  · exact stable_register (ReadEntryResponse.stable .after) (fun _ => rfl) (fun _ => rfl)
      fun _ => rfl
  · exact stable_register ProxiedName.stable (fun _ => rfl) (fun _ => rfl) fun _ => rfl
  · exact stable_register ProxiedIdentity.stable (fun _ => rfl) (fun _ => rfl) fun _ => rfl
  · exact stable_register BoundIdentity.stable (fun _ => rfl) (fun _ => rfl) fun _ => rfl
  · exact stable_register PasswordExpired.stable (fun _ => rfl) (fun _ => rfl) fun _ => rfl
  · exact stable_register PasswordExpiring.stable (fun _ => rfl) (fun _ => rfl) fun _ => rfl

/-! ## Any control -/

/-- A control that no decoder makes anything of stays as it is. -/
theorem ofControl_eq_raw {c : Control}
    (h : ∀ decode a, registry.lookup c.oid = some decode → decode c ≠ .ok a) :
    ofControl c = raw c := by
  unfold ofControl
  split
  · rfl
  · next decode hlookup =>
    split
    · next a ha => exact absurd ha (h decode a hlookup)
    · rfl

/-- What the decoder registered for a control accepts is what the control is read as. -/
theorem ofControl_eq_of_ok {c : Control} {decode : Control → Except ProtocolError AnyControl}
    {a : AnyControl} (hlookup : registry.lookup c.oid = some decode) (h : decode c = .ok a) :
    ofControl c = a := by
  simp only [ofControl, hlookup, h]

/-- What a registered decoder made of a control is of a known type, and it makes the same again of
the control that stands for it. -/
theorem reread_of_ok {c : Control} {decode : Control → Except ProtocolError AnyControl}
    {a : AnyControl} (hlookup : registry.lookup c.oid = some decode) (h : decode c = .ok a) :
    a.name?.isSome ∧ a.oid = c.oid ∧ ofControl a.control = a := by
  obtain ⟨before, after, heq, -⟩ := List.lookup_eq_some_iff.1 hlookup
  have hmem : (c.oid, decode) ∈ registry := by simp [heq]
  obtain ⟨hname, hoid, hcontrol, hagain⟩ := stable_of_mem_registry hmem c a h
  exact ⟨hname, hoid, ofControl_eq_of_ok (hcontrol ▸ hlookup) hagain⟩

/-- Reading a control never changes its identifier, and what was read is read again as the same
value from the control that stands for it. What the decoder registered for a control accepts is
given as a value of its type; a control for which no decoder is registered, or which its decoder
refuses, stays as it is. -/
theorem reread_same (c : Control) :
    (ofControl c).oid = c.oid ∧ ofControl (ofControl c).control = ofControl c ∧
      (isRegistered c.oid = false → (ofControl c).control = c) ∧
      ∀ decode, registry.lookup c.oid = some decode →
        (∀ e, decode c = .error e → (ofControl c).control = c) ∧
        ∀ a, decode c = .ok a → ofControl c = a ∧ a.name?.isSome := by
  by_cases h : ∃ decode a, registry.lookup c.oid = some decode ∧ decode c = .ok a
  · obtain ⟨decode, a, hlookup, ha⟩ := h
    obtain ⟨hname, hoid, hagain⟩ := reread_of_ok hlookup ha
    rw [ofControl_eq_of_ok hlookup ha]
    refine ⟨hoid, hagain, fun hunknown => ?_, fun decode' hlookup' => ?_⟩
    · simp [isRegistered, hlookup] at hunknown
    · obtain rfl := Option.some.inj (hlookup.symm.trans hlookup')
      refine ⟨fun e herror => ?_, fun a' ha' => ?_⟩
      · cases ha.symm.trans herror
      · obtain rfl := Except.ok.inj (ha.symm.trans ha')
        exact ⟨rfl, hname⟩
  · have hraw : ofControl c = raw c :=
      ofControl_eq_raw fun decode a hlookup ha => h ⟨decode, a, hlookup, ha⟩
    have hcontrol : (ofControl c).control = c := by rw [hraw]; rfl
    exact ⟨by rw [hraw]; rfl, by rw [hcontrol], fun _ => hcontrol, fun decode hlookup =>
      ⟨fun _ _ => hcontrol, fun a ha => absurd ⟨decode, a, hlookup, ha⟩ h⟩⟩

/-- A control of an unknown type and one that lacks its value stay as they are. One whose length is
spelled with more bytes than it needs is read as a value, which stands for a shorter control. -/
theorem reread_same_unknown_and_refused :
    let unknown : Control := ⟨"1.2.3", true, some [0x01]⟩
    let refused : Control := ⟨PagedResults.oid, true, none⟩
    let long : Control :=
      ⟨PagedResults.oid, true, some [0x30, 0x81, 0x05, 0x02, 0x01, 0x07, 0x04, 0x00]⟩
    let short : Control :=
      ⟨PagedResults.oid, true, some [0x30, 0x05, 0x02, 0x01, 0x07, 0x04, 0x00]⟩
    let decode : Control → Except ProtocolError AnyControl := (register pagedResults).2
    isRegistered unknown.oid = false ∧ (ofControl unknown).control = unknown ∧
      registry.lookup PagedResults.oid = some decode ∧
      decode refused = .error (.missingValue PagedResults.oid) ∧
      (ofControl refused).control = refused ∧
      decode long = .ok (pagedResults ⟨7, [], true⟩) ∧ ofControl long = pagedResults ⟨7, [], true⟩ ∧
      (ofControl long).control = short ∧ ofControl short = ofControl long := by
  intro unknown refused long short decode
  have hunknown : isRegistered unknown.oid = false := by decide +kernel
  have hlookup : registry.lookup PagedResults.oid = some decode := rfl
  have hrefused : decode refused = .error (.missingValue PagedResults.oid) := rfl
  have hread : (ControlType.ofControl long : Except ProtocolError PagedResults) =
      .ok ⟨7, [], true⟩ := by decide +kernel
  have hlong : decode long = .ok (pagedResults ⟨7, [], true⟩) := congrArg (·.map pagedResults) hread
  obtain ⟨-, hagain, -, hregistered⟩ := reread_same long
  obtain ⟨htyped, -⟩ := (hregistered decode hlookup).2 _ hlong
  have hshort : (ofControl long).control = short := by
    rw [htyped]
    decide +kernel
  exact ⟨hunknown, (reread_same unknown).2.2.1 hunknown, hlookup, hrefused,
    ((reread_same refused).2.2.2 decode hlookup).1 _ hrefused, hlong, htyped, hshort,
    hshort ▸ hagain⟩

end AnyControl
end Ldap
