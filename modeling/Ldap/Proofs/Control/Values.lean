import Ldap.Control.Any
import Ldap.Proofs.Filter.Wire
import Ldap.Proofs.Operation.Entry
import Ldap.Proofs.Text.Decimal

/-!
# Values that survive as controls

A value of a registered type, a request to read an entry and a message of a synchronization are
written as controls and responses, and read back from them. `controls_restored` tells exactly which
of them come back as they were.
-/

namespace Ldap

open Ber (Element Tag)
open ControlType (ofControl toControl)

/-! ## Values of controls -/

namespace Control

/-- A control with less than four gigabytes in its value, if it has one. -/
def Fits (c : Control) : Prop :=
  ∀ bytes ∈ c.value, bytes.length < 2 ^ 32

variable {oid : String} {critical : Bool}

/-- A control whose value, if it is an element, is a short one. -/
def Short (c : Control) : Prop :=
  ∀ e : Element, c.value = some e.encode → e.Short

/-- An element in less than four gigabytes has a length that can be told. -/
theorem Fits.short {c : Control} (h : c.Fits) : c.Short :=
  fun _ he => Element.short_of_length_lt (h _ he)

/-- The element in a short control is short. -/
theorem Short.element {e : Element} (h : (withElement oid critical e).Short) : e.Short :=
  h e rfl

/-- The element that a control is made of is found in it. -/
theorem valueElement_withElement {e : Element} (h : (withElement oid critical e).Short) :
    (withElement oid critical e).valueElement = .ok e := by
  show (liftM (Element.decode e.encode) : Except ProtocolError Element) = _
  rw [Element.decode_encode h.element, liftM_ok]

/-- The members of a value are read back unless there are too few or too many of them. -/
theorem valueMembers_eq_ok_iff {es es' : List Element} {context : String} {min : Nat}
    {max : Option Nat} (h : (withElement oid critical (.sequence es)).Short) :
    (withElement oid critical (.sequence es)).valueMembers context min max = .ok es' ↔
      es = es' ∧ min ≤ es.length ∧ ∀ m ∈ max, es.length ≤ m := by
  have hes : (Element.sequence es).asSequence = .ok es :=
    Element.asSequenceTagged_eq_ok_iff.2 (Element.holds_constructed h.element)
  rw [valueMembers, valueElement_withElement h]
  simp only [ok_bind, hes, liftM_ok, bind_eq_ok_iff, checkCount_eq_ok_iff, pure_eq_ok_iff]
  constructor
  · rintro ⟨-, hcount, rfl⟩
    exact ⟨rfl, hcount⟩
  · rintro ⟨rfl, hcount⟩
    exact ⟨(), hcount, rfl⟩

end Control

namespace ControlType

variable {α : Type} [ControlType α] {a b : α} {oid : String} {critical : Bool}

/-- A value is read back from the control that stands for it. -/
def Restored (a : α) : Prop :=
  ofControl (toControl a) = .ok a

/-- A control holds an element, and its reader makes something of it. -/
theorem reads_iff_element {e : Element} {read : Element → Except ProtocolError α}
    (h : (toControl a).Short) (hwrite : toControl a = .withElement oid critical e)
    (hread : ofControl (toControl a) = (toControl a).valueElement >>= read) :
    ofControl (toControl a) = .ok b ↔ read e = .ok b := by
  rw [hwrite] at h
  rw [hread, hwrite, Control.valueElement_withElement h, ok_bind]

/-- A control holds members, and its reader wants as many and makes something of them. -/
theorem reads_iff_members {es : List Element} {context : String} {min : Nat} {max : Option Nat}
    {read : List Element → Except ProtocolError α} (h : (toControl a).Short)
    (hwrite : toControl a = .withElement oid critical (.sequence es))
    (hread : ofControl (toControl a) = (toControl a).valueMembers context min max >>= read) :
    ofControl (toControl a) = .ok b ↔
      min ≤ es.length ∧ (∀ m ∈ max, es.length ≤ m) ∧ read es = .ok b := by
  rw [hwrite] at h
  rw [hread, hwrite, bind_eq_ok_iff]
  simp only [Control.valueMembers_eq_ok_iff h]
  constructor
  · rintro ⟨_, ⟨rfl, hmin, hmax⟩, hok⟩
    exact ⟨hmin, hmax, hok⟩
  · rintro ⟨hmin, hmax, hok⟩
    exact ⟨es, ⟨rfl, hmin, hmax⟩, hok⟩

end ControlType

open ControlType (Restored reads_iff_element reads_iff_members)

@[simp] theorem critical_withElement (oid : String) (critical : Bool) (e : Element) :
    (Control.withElement oid critical e).critical = critical := rfl

/-! ## Plain types -/

theorem Marker.restored {kind : MarkerKind} (m : Marker kind) : Restored m := rfl

/-- Whether subentries are asked for comes back. -/
theorem Subentries.restored {s : Subentries} (h : (toControl s).Short) : Restored s :=
  (reads_iff_element h rfl rfl).2 (by simp [toControl])

/-- The bytes of an identifier are the value itself, so there is no length that could be too great.
-/
theorem TransactionSpecification.restored (t : TransactionSpecification) : Restored t := rfl

/-- A size and a cookie come back, also an empty cookie. -/
theorem PagedResults.restored {p : PagedResults} (h : (toControl p).Short) : Restored p :=
  (reads_iff_members h rfl rfl).2 ⟨by simp, by simp, by simp [toControl]⟩

/-- The kinds of changes come back as the bits that stand for them, with both flags. -/
theorem PersistentSearch.restored {p : PersistentSearch} (h : (toControl p).Short) : Restored p :=
  (reads_iff_members h rfl rfl).2 ⟨by simp, by simp, by simp [toControl]⟩

theorem DirSync.restored {d : DirSync} (h : (toControl d).Short) : Restored d :=
  (reads_iff_members h rfl rfl).2 ⟨by simp, by simp, by simp [toControl]⟩

/-! ## Reading of entries -/

/-- A list of texts is read back from what is written for each of them. -/
theorem stringsOf_map_string (texts : List String) : stringsOf (texts.map .string) = .ok texts :=
  mapM_map_eq_ok_iff.2 (by simp)

/-- The attributes that are asked for come back, also if there are none. -/
theorem ReadEntryRequest.restored {time : ReadTime} {r : ReadEntryRequest time}
    (h : (toControl r).Short) : Restored r :=
  (reads_iff_members h rfl rfl).2
    ⟨by simp, by simp, by simp [stringsOf_map_string, toControl]⟩

/-- An entry is written under its own tag in the control; the reader looks at the members only. -/
theorem ReadEntryResponse.restored {time : ReadTime} {r : ReadEntryResponse time}
    (h : (toControl r).Short) : Restored r := by
  have hentry : Entry.decode r.entry.encode = .ok r.entry :=
    Entry.faithful.reads trivial (Control.Short.element h)
  obtain ⟨members, hmembers, hread⟩ := bind_eq_ok_iff.1 hentry
  have hes := (Element.asSequenceTagged_eq_ok_iff.1 (liftM_eq_ok_iff.1 hmembers)).2
  exact (reads_iff_element h rfl rfl).2 (by simp [hes, hread])

/-! ## Order and windows -/

namespace SortKey

/-- The direction of a key is not taken for its rule. -/
theorem reverseTag_ne_ruleTag : reverseTag ≠ ruleTag := by decide

/-- The members of a key behind the attribute. -/
def optional (k : SortKey) : List Element :=
  k.rule.toList.map (.stringTagged ruleTag)
    ++ (if k.reverse then [.booleanTagged reverseTag true] else [])

/-- The rule and the direction of a key are read back. A key that does not go in reverse has no
member for that. -/
theorem foldlM_decodeOptional (k : SortKey) :
    k.optional.foldlM decodeOptional ⟨k.attr, none, false⟩ = .ok k := by
  obtain ⟨attr, rule, reverse⟩ := k
  cases rule <;> cases reverse <;>
    simp [optional, decodeOptional, reverseTag_ne_ruleTag, pure, Except.pure]

/-- A key is an attribute with at most two members behind it, which are read from left to right. -/
theorem decode_eq_ok_iff {e : Element} {k : SortKey} :
    decode e = .ok k ↔ ∃ attr rest text, e.Holds .sequence (attr :: rest) ∧ rest.length ≤ 2 ∧
      attr.asString = .ok text ∧ rest.foldlM decodeOptional ⟨text, none, false⟩ = .ok k := by
  unfold decode
  simp only [bind_eq_ok_iff, liftM_eq_ok_iff, checkCount_eq_ok_iff]
  constructor
  · rintro ⟨es, hes, -, ⟨-, hmax⟩, h⟩
    cases es with
    | nil => cases h
    | cons attr rest =>
      simp only [bind_eq_ok_iff, liftM_eq_ok_iff] at h
      obtain ⟨text, hattr, hread⟩ := h
      exact ⟨attr, rest, text, Element.asSequenceTagged_eq_ok_iff.1 hes,
        Nat.le_of_succ_le_succ (hmax 3 rfl), hattr, hread⟩
  · rintro ⟨attr, rest, text, he, hmax, hattr, hread⟩
    refine ⟨attr :: rest, Element.asSequenceTagged_eq_ok_iff.2 he, (),
      by simpa using Nat.lt_succ_of_le hmax, ?_⟩
    simp only [bind_eq_ok_iff, liftM_eq_ok_iff]
    exact ⟨text, hattr, hread⟩

/-- A key that is short enough for its length comes back. -/
theorem decode_encode {k : SortKey} (h : k.encode.Short) : decode k.encode = .ok k := by
  refine decode_eq_ok_iff.2 ⟨.string k.attr, k.optional, k.attr, Element.holds_constructed h, ?_,
    Element.asStringTagged_stringTagged _ _, foldlM_decodeOptional k⟩
  unfold optional
  cases k.rule <;> cases k.reverse <;> simp

end SortKey

/-- A request to sort comes back exactly if it has a key. -/
theorem SortRequest.restored_iff {r : SortRequest} (h : (toControl r).Short) :
    Restored r ↔ r.keys ≠ [] := by
  have hkeys : (r.keys.map SortKey.encode).mapM SortKey.decode = .ok r.keys :=
    mapM_map_eq_ok_iff.2 fun k hk =>
      SortKey.decode_encode ((Control.Short.element h).member (List.mem_map_of_mem hk))
  rw [Restored, reads_iff_members h rfl rfl, ← List.length_pos_iff]
  simp [hkeys, toControl, Nat.one_le_iff_ne_zero, List.length_pos_iff]

/-- A result comes back with the attribute that stood in the way, or without one. -/
theorem SortResponse.restored {r : SortResponse} (h : (toControl r).Short) : Restored r := by
  obtain ⟨code, attr⟩ := r
  cases attr with
  | none => exact (reads_iff_members h rfl rfl).2 ⟨by simp, by simp, by simp⟩
  | some attr => exact (reads_iff_members h rfl rfl).2 ⟨by simp, by simp, by simp⟩

/-- A context or a cookie that may be missing is read back from the list of the one member or none.
-/
theorem firstOctets?_toList (bytes : Option (List UInt8)) :
    firstOctets? (bytes.toList.map .octetString) = .ok bytes := by
  cases bytes <;> simp [firstOctets?]

theorem ViewResponse.restored {r : ViewResponse} (h : (toControl r).Short) : Restored r :=
  (reads_iff_members h rfl rfl).2
    ⟨by simp, by cases r.context <;> simp, by simp [firstOctets?_toList]⟩

theorem ViewTarget.atLeastTag_ne_offsetTag : atLeastTag ≠ offsetTag := by decide

/-- A target is told by its tag, so a value is not taken for an offset. -/
theorem ViewTarget.decode_encode {t : ViewTarget} (h : t.encode.Short) :
    decode t.encode = .ok t := by
  cases t with
  | offset o count =>
    have hes : (encode (offset o count)).asSequenceTagged offsetTag = .ok _ :=
      Element.asSequenceTagged_eq_ok_iff.2 (Element.holds_constructed h)
    have htag : (encode (offset o count)).tag = offsetTag := rfl
    rw [decode, if_pos htag, hes]
    simp [checkCount]
  | atLeast value =>
    have htag : (encode (atLeast value)).tag = atLeastTag := rfl
    rw [decode, htag, if_neg atLeastTag_ne_offsetTag, if_pos rfl]
    rfl

/-- A request for a view comes back, with or without a context. -/
theorem ViewRequest.restored {r : ViewRequest} (h : (toControl r).Short) : Restored r := by
  have htarget : ViewTarget.decode r.target.encode = .ok r.target :=
    ViewTarget.decode_encode ((Control.Short.element h).member (by simp))
  exact (reads_iff_members h rfl rfl).2
    ⟨by simp, by cases r.context <;> simp, by simp [toControl, firstOctets?_toList, htarget]⟩

/-! ## Synchronization -/

/-- A cookie and a flag are read back, also when the flag is left out for its default. -/
theorem decodeCookieFlag_encodeCookieFlag (context : String) (default : Bool)
    (cookie : Option (List UInt8)) (flag : Bool) :
    decodeCookieFlag context default (encodeCookieFlag default cookie flag) =
      .ok (cookie, flag) := by
  by_cases hflag : flag = default
  · cases cookie <;> simp [encodeCookieFlag, decodeCookieFlag, decodeFlag, hflag]
  · cases cookie <;> simp [encodeCookieFlag, decodeCookieFlag, decodeFlag, hflag]

/-- There are two members at most, as many as the readers admit. -/
theorem length_encodeCookieFlag_le (default : Bool) (cookie : Option (List UInt8)) (flag : Bool) :
    (encodeCookieFlag default cookie flag).length ≤ 2 := by
  unfold encodeCookieFlag
  cases cookie <;> split <;> simp

theorem SyncMode.ofValue?_value (m : SyncMode) : SyncMode.ofValue? m.value = some m := by
  cases m <;> rfl

theorem SyncChange.ofValue?_value (c : SyncChange) : SyncChange.ofValue? c.value = some c := by
  cases c <;> rfl

/-- An identifier has sixteen bytes by its type, so it is never refused. -/
theorem EntryUuid.ofBytes?_bytes (u : EntryUuid) : EntryUuid.ofBytes? u.bytes = some u :=
  dif_pos u.length_bytes

/-- The flag for a reload is left out when it is not set, and comes back as not set. -/
theorem SyncRequest.restored {r : SyncRequest} (h : (toControl r).Short) : Restored r := by
  have hlen := length_encodeCookieFlag_le false r.cookie r.reload
  exact (reads_iff_members h rfl rfl).2 ⟨by simp, by simpa [Nat.lt_succ_iff] using hlen,
    by simp [toControl, SyncMode.ofValue?_value, decodeCookieFlag_encodeCookieFlag]⟩

/-- What became of an entry comes back with its identifier, and with the cookie if there is one. -/
theorem SyncState.restored {x : SyncState} (h : (toControl x).Short) : Restored x :=
  (reads_iff_members h rfl rfl).2 ⟨by simp, by cases x.cookie <;> simp,
    by simp [SyncChange.ofValue?_value, EntryUuid.ofBytes?_bytes, firstOctets?_toList]⟩

theorem SyncDone.restored {d : SyncDone} (h : (toControl d).Short) : Restored d := by
  have hlen := length_encodeCookieFlag_le false d.cookie d.refreshDeletes
  exact (reads_iff_members h rfl rfl).2
    ⟨by simp, by simpa using hlen, by simp [decodeCookieFlag_encodeCookieFlag]⟩

namespace SyncInfo

theorem decodeUuid_octetString (u : EntryUuid) : decodeUuid (.octetString u.bytes) = .ok u := by
  rw [decodeUuid, Element.asOctets_octetString, liftM_ok, ok_bind, EntryUuid.ofBytes?_bytes]
  rfl

/-- Both phases of a refresh are written alike; which one it is stands in the tag. -/
theorem decodeRefresh_constructed {tag : Tag} (phase : RefreshPhase) (cookie : Option (List UInt8))
    (done : Bool) (h : (Element.constructed tag (encodeCookieFlag true cookie done)).Short) :
    decodeRefresh phase (.constructed tag (encodeCookieFlag true cookie done)) =
      .ok (refresh phase cookie done) := by
  rw [decodeRefresh, (Element.holds_constructed h).2]
  simp [decodeCookieFlag_encodeCookieFlag]

/-- The set stands last, behind what is left out by default. -/
theorem decodeIdSet_encode {cookie : Option (List UInt8)} {deletes : Bool} {uuids : List EntryUuid}
    (h : (encode (idSet cookie deletes uuids)).Short) :
    decodeIdSet (encode (idSet cookie deletes uuids)) = .ok (idSet cookie deletes uuids) := by
  have hmembers := (Element.holds_constructed h).2
  have hshort := h.member (List.mem_append_right _ List.mem_cons_self)
  have hset : (Element.set (uuids.map fun u => .octetString u.bytes)).asSet = .ok _ :=
    Element.asSet_eq_ok_iff.2 (Element.holds_constructed hshort)
  have huuids : (uuids.map fun u => Element.octetString u.bytes).mapM decodeUuid = .ok uuids :=
    mapM_map_eq_ok_iff.2 fun u _ => decodeUuid_octetString u
  rw [decodeIdSet, encode, hmembers]
  simp [decodeCookieFlag_encodeCookieFlag, hset, huuids]

/-- Each kind of message and each phase of a refresh has a tag of its own, by which it is read. -/
theorem decode_encode {i : SyncInfo} (h : i.encode.Short) : decode i.encode = .ok i := by
  cases i with
  | newCookie cookie => rfl
  | refresh phase cookie done =>
    cases phase with
    | delete => exact decodeRefresh_constructed .delete cookie done h
    | present => exact decodeRefresh_constructed .present cookie done h
  | idSet cookie deletes uuids => exact decodeIdSet_encode h

/-- A message of a synchronization comes back from its response. -/
theorem ofResponse_toResponse {i : SyncInfo} (h : i.encode.Short) :
    ofResponse i.toResponse = .ok i := by
  have helement : Element.decode i.encode.encode = .ok i.encode := Element.decode_encode h
  simp [ofResponse, toResponse, helement, decode_encode h]

end SyncInfo

/-! ## Filters -/

/-- A short filter is read back exactly if it is expressible and not too deep. -/
theorem Filter.decode_encode_iff_encodable {f : Filter} (h : f.encode.Short) :
    decode f.encode = .ok f ↔ f.Encodable :=
  ⟨faithful.good, fun hgood => faithful.reads hgood h⟩

/-- An assertion comes back exactly if its filter can be read. -/
theorem Assertion.restored_iff {a : Assertion} (h : (toControl a).Short) :
    Restored a ↔ a.filter.Encodable := by
  rw [Restored, reads_iff_element h rfl rfl,
    ← Filter.decode_encode_iff_encodable (Control.Short.element h)]
  obtain ⟨filter, critical⟩ := a
  simp only [bind_eq_ok_iff, pure_eq_ok_iff, toControl, critical_withElement, mk.injEq, and_true,
    exists_eq_right]

namespace MatchedValues

/-- Filters are accepted if there is one and all of them select values. -/
theorem checkFilters_eq_ok_iff {filters : List Filter} {u : Unit} :
    checkFilters filters = .ok u ↔ filters ≠ [] ∧ ∀ f ∈ filters, f.isSimpleItem = true := by
  unfold checkFilters
  by_cases hnil : filters = []
  · simp [hnil]
  · rw [if_neg (by simpa using hnil)]
    cases hfind : filters.find? (!·.isSimpleItem) with
    | none => simpa [hnil] using hfind
    | some f =>
      have hf := List.find?_some hfind
      simp only [reduceCtorEq, false_iff]
      rintro ⟨-, hall⟩
      rw [hall f (List.mem_of_find?_eq_some hfind)] at hf
      cases hf

theorem ofFilters_eq_ok_iff {filters : List Filter} {critical : Bool} {m : MatchedValues} :
    ofFilters filters critical = .ok m ↔
      (filters ≠ [] ∧ ∀ f ∈ filters, f.isSimpleItem = true) ∧ ⟨filters, critical⟩ = m := by
  simp only [ofFilters, bind_eq_ok_iff, checkFilters_eq_ok_iff, pure_eq_ok_iff, exists_const]

/-- Matched values come back exactly if there are filters, all of them select values, and all of
them can be read. -/
theorem restored_iff {m : MatchedValues} (h : (toControl m).Short) :
    Restored m ↔ m.filters ≠ [] ∧ ∀ f ∈ m.filters, f.isSimpleItem = true ∧ f.Encodable := by
  obtain ⟨filters, critical⟩ := m
  have hwrite : toControl (⟨filters, critical⟩ : MatchedValues) =
      .withElement oid critical (.sequence (filters.map Filter.encode)) := by
    rw [← Filter.encodeAll_eq_map]
    rfl
  have hshort : (Element.sequence (filters.map Filter.encode)).Short :=
    Control.Short.element (hwrite ▸ h)
  have hes : (Element.sequence (filters.map Filter.encode)).asSequence = .ok _ :=
    Element.asSequenceTagged_eq_ok_iff.2 (Element.holds_constructed hshort)
  have hdecode : (filters.map Filter.encode).mapM Filter.decode = .ok filters ↔
      ∀ f ∈ filters, f.Encodable :=
    mapM_map_eq_ok_iff.trans <| forall₂_congr fun f hf =>
      Filter.decode_encode_iff_encodable (hshort.member (List.mem_map_of_mem hf))
  rw [Restored, reads_iff_element h hwrite rfl]
  simp only [hes, liftM_ok, ok_bind, bind_eq_ok_iff, ofFilters_eq_ok_iff, toControl,
    critical_withElement, mk.injEq, and_true]
  constructor
  · rintro ⟨_, hread, ⟨hne, hsimple⟩, rfl⟩
    exact ⟨hne, fun f hf => ⟨hsimple f hf, hdecode.1 hread f hf⟩⟩
  · rintro ⟨hne, hall⟩
    exact ⟨filters, hdecode.2 fun f hf => (hall f hf).2, ⟨hne, fun f hf => (hall f hf).1⟩, rfl⟩

end MatchedValues

/-! ## Identities and passwords -/

theorem Text.Utf8.decode?_encode (s : String) : decode? (encode s) = some s :=
  decode?_eq_some_iff.2 rfl

/-- A text that is the value itself needs no length, and its bytes are UTF-8. -/
theorem textOfValue_encode (s name : String) : textOfValue (Text.Utf8.encode s) name = .ok s := by
  rw [textOfValue, Text.Utf8.decode?_encode]

/-- The control is always critical, as its reader wants it. -/
theorem ProxiedIdentity.restored (p : ProxiedIdentity) : Restored p := by
  show (do
    Control.expectCritical _ _
    return ⟨← textOfValue (Text.Utf8.encode p.id) name⟩ : Except ProtocolError ProxiedIdentity) = _
  rw [textOfValue_encode]
  rfl

theorem BoundIdentity.restored (b : BoundIdentity) : Restored b := by
  show (do return ⟨← textOfValue (Text.Utf8.encode b.id) name⟩ : Except _ BoundIdentity) = _
  rw [textOfValue_encode]
  rfl

theorem PasswordExpired.restored (p : PasswordExpired) : Restored p := rfl

/-- A number of seconds is written in decimal digits, with a sign if it is below zero. -/
theorem PasswordExpiring.restored (p : PasswordExpiring) : Restored p := by
  have hseconds : seconds? (Text.Utf8.encode (toString p.seconds.toInt)) = some p.seconds := by
    rw [seconds?, Text.Utf8.decode?_encode]
    exact Text.Decimal.int32?_trim_toString _
  have hvalue : (toControl p).requiredValue =
      .ok (Text.Utf8.encode (toString p.seconds.toInt)) := rfl
  simp only [Restored, ofControl, hvalue, ok_bind, hseconds]
  rfl

/-! ## Names -/

/-- A name has a text that is read as an equal name. -/
def Dn.Reread (d : Dn) : Prop :=
  ∃ d', Dn.parse d.text none = .ok d' ∧ (d' == d) = true

namespace ProxiedName

/-- Names are compared as names, not as the texts they were read from. -/
def Same (a b : ProxiedName) : Prop :=
  (a.dn == b.dn) = true

/-- What comes back is what the text of the name is read as. -/
theorem reads_iff {p q : ProxiedName} (h : (toControl p).Short) :
    ofControl (toControl p) = .ok q ↔ Dn.parse p.dn.text none = .ok q.dn := by
  rw [reads_iff_members h rfl rfl]
  obtain ⟨dn⟩ := q
  simp only [Element.asString_string, liftM_ok, ok_bind, bind_eq_ok_iff, liftM_name_eq_ok_iff,
    pure_eq_ok_iff, mk.injEq, exists_eq_right]
  simp

/-- A name to act under comes back exactly if it is read from its text. -/
theorem restored_iff {p : ProxiedName} (h : (toControl p).Short) :
    (∃ q : ProxiedName, ofControl (toControl p) = .ok q ∧ q.Same p) ↔ p.dn.Reread := by
  simp only [reads_iff h]
  constructor
  · rintro ⟨q, hq, hsame⟩
    exact ⟨q.dn, hq, hsame⟩
  · rintro ⟨d, hd, hsame⟩
    exact ⟨⟨d⟩, hd, hsame⟩

end ProxiedName

namespace ChangeNotification

/-- Notifications are compared member by member, and names as names. -/
structure Same (a b : ChangeNotification) : Prop where
  change : a.change = b.change
  previousDn : (a.previousDn == b.previousDn) = true
  number : a.number = b.number

/-- A number that may be missing stands last and is read back. -/
theorem decodeNumber_toList (change : ChangeType) (previousDn : Option Dn) (number : Option Int64) :
    decodeNumber change previousDn (number.toList.map fun v => .integer v.toInt) =
      .ok ⟨change, previousDn, number⟩ := by
  cases number <;> simp [decodeNumber]

/-- Without a name, the number is not taken for one. -/
theorem decodeTail_number (change : ChangeType) (number : Option Int64) :
    decodeTail change (number.toList.map fun v => .integer v.toInt) =
      .ok ⟨change, none, number⟩ := by
  cases number <;> simp [decodeTail, decodeNumber]

/-- With a name, the notification is read exactly if the name is. -/
theorem decodeTail_string_eq_ok_iff {change : ChangeType} {text : String} {number : Option Int64}
    {m : ChangeNotification} :
    decodeTail change (.string text :: number.toList.map fun v => .integer v.toInt) = .ok m ↔
      ∃ d, Dn.parse text none = .ok d ∧ ⟨change, some d, number⟩ = m := by
  have htag : (Element.string text).tag = .octetString := rfl
  rw [decodeTail, if_pos htag]
  simp only [Element.asString_string, liftM_ok, ok_bind, decodeNumber_toList, bind_eq_ok_iff,
    liftM_name_eq_ok_iff, Except.ok.injEq]

theorem ChangeType.ofValue?_value (c : ChangeType) : ChangeType.ofValue? c.value = some c := by
  cases c <;> rfl

/-- A notification without a name comes back. -/
theorem restored_of_none {n : ChangeNotification} (h : (toControl n).Short)
    (hnone : n.previousDn = none) : Restored n := by
  obtain ⟨change, previousDn, number⟩ := n
  obtain rfl : previousDn = none := hnone
  refine (reads_iff_members h rfl rfl).2 ⟨by simp, by cases number <;> simp, ?_⟩
  simp [ChangeType.ofValue?_value, decodeTail_number]

/-- A notification with a name is read back with what the text of the name is read as. -/
theorem reads_iff_of_some {n m : ChangeNotification} {d : Dn} (h : (toControl n).Short)
    (hsome : n.previousDn = some d) :
    ofControl (toControl n) = .ok m ↔
      ∃ d', Dn.parse d.text none = .ok d' ∧ { n with previousDn := some d' } = m := by
  obtain ⟨change, previousDn, number⟩ := n
  obtain rfl : previousDn = some d := hsome
  rw [reads_iff_members h rfl rfl, ← decodeTail_string_eq_ok_iff]
  have hlen : number.toList.length ≤ 1 := by cases number <;> simp
  simp [ChangeType.ofValue?_value, hlen, Nat.lt_succ_iff]

/-- A notification comes back exactly if the name in it is read from its text. -/
theorem restored_iff {n : ChangeNotification} (h : (toControl n).Short) :
    (∃ m : ChangeNotification, ofControl (toControl n) = .ok m ∧ m.Same n) ↔
      ∀ d ∈ n.previousDn, d.Reread := by
  cases hdn : n.previousDn with
  | none =>
    have hrestored := restored_of_none h hdn
    simp only [Option.not_mem_none, false_implies, implies_true, iff_true]
    exact ⟨n, hrestored, rfl, by rw [hdn]; rfl, rfl⟩
  | some d =>
    simp only [reads_iff_of_some h hdn]
    constructor
    · rintro ⟨_, ⟨d', hd', rfl⟩, -, hsame, -⟩
      rintro _ ⟨⟩
      rw [hdn] at hsame
      exact ⟨d', hd', hsame⟩
    · intro hd
      obtain ⟨d', hd', hsame⟩ := hd d rfl
      exact ⟨_, ⟨d', hd', rfl⟩, rfl, by rw [hdn]; exact hsame, rfl⟩

end ChangeNotification

/-! ## All types -/

namespace AnyControl

/-- A value of a registered type comes back from its control. What is kept as it is has no type. -/
def Restored : AnyControl → Prop
  | marker _ c => ControlType.Restored c
  | subentries c => ControlType.Restored c
  | transaction c => ControlType.Restored c
  | assertion c => ControlType.Restored c
  | matchedValues c => ControlType.Restored c
  | sortRequest c => ControlType.Restored c
  | sortResponse c => ControlType.Restored c
  | pagedResults c => ControlType.Restored c
  | viewRequest c => ControlType.Restored c
  | viewResponse c => ControlType.Restored c
  | persistentSearch c => ControlType.Restored c
  | changeNotification n =>
    ∃ m : ChangeNotification, ControlType.ofControl (toControl n) = .ok m ∧ m.Same n
  | dirSync c => ControlType.Restored c
  | syncRequest c => ControlType.Restored c
  | syncState c => ControlType.Restored c
  | syncDone c => ControlType.Restored c
  | readEntry _ c => ControlType.Restored c
  | proxiedName p =>
    ∃ q : ProxiedName, ControlType.ofControl (toControl p) = .ok q ∧ q.Same p
  | proxiedIdentity c => ControlType.Restored c
  | boundIdentity c => ControlType.Restored c
  | passwordExpired c => ControlType.Restored c
  | passwordExpiring c => ControlType.Restored c
  | raw _ => False

/-- What a value needs to come back. -/
def Restorable : AnyControl → Prop
  | sortRequest r => r.keys ≠ []
  | matchedValues m => m.filters ≠ [] ∧ ∀ f ∈ m.filters, f.isSimpleItem = true ∧ f.Encodable
  | assertion a => a.filter.Encodable
  | changeNotification n => ∀ d ∈ n.previousDn, d.Reread
  | proxiedName p => p.dn.Reread
  | raw _ => False
  | _ => True

/-- For most types there is nothing to ask for but that the lengths can be told. -/
theorem restored_iff_restorable {a : AnyControl} (h : a.control.Short) :
    a.Restored ↔ a.Restorable := by
  cases a with
  | marker kind c => exact iff_of_true c.restored trivial
  | subentries c => exact iff_of_true (Subentries.restored h) trivial
  | transaction c => exact iff_of_true c.restored trivial
  | assertion c => exact Assertion.restored_iff h
  | matchedValues c => exact MatchedValues.restored_iff h
  | sortRequest c => exact SortRequest.restored_iff h
  | sortResponse c => exact iff_of_true (SortResponse.restored h) trivial
  | pagedResults c => exact iff_of_true (PagedResults.restored h) trivial
  | viewRequest c => exact iff_of_true (ViewRequest.restored h) trivial
  | viewResponse c => exact iff_of_true (ViewResponse.restored h) trivial
  | persistentSearch c => exact iff_of_true (PersistentSearch.restored h) trivial
  | changeNotification c => exact ChangeNotification.restored_iff h
  | dirSync c => exact iff_of_true (DirSync.restored h) trivial
  | syncRequest c => exact iff_of_true (SyncRequest.restored h) trivial
  | syncState c => exact iff_of_true (SyncState.restored h) trivial
  | syncDone c => exact iff_of_true (SyncDone.restored h) trivial
  | readEntry time c => exact iff_of_true (ReadEntryResponse.restored h) trivial
  | proxiedName c => exact ProxiedName.restored_iff h
  | proxiedIdentity c => exact iff_of_true c.restored trivial
  | boundIdentity c => exact iff_of_true c.restored trivial
  | passwordExpired c => exact iff_of_true c.restored trivial
  | passwordExpiring c => exact iff_of_true c.restored trivial
  | raw c => exact Iff.rfl

end AnyControl

/-- Values of registered types come back from their controls exactly if they are restorable, and
requests to read an entry and messages of a synchronization always come back. -/
theorem controls_restored :
    (∀ a : AnyControl, a.control.Fits → (a.Restored ↔ a.Restorable)) ∧
    (∀ (time : ReadTime) (r : ReadEntryRequest time), (toControl r).Fits → Restored r) ∧
    ∀ i : SyncInfo, i.encode.encode.length < 2 ^ 32 → SyncInfo.ofResponse i.toResponse = .ok i :=
  ⟨fun _ h => AnyControl.restored_iff_restorable h.short,
    fun _ _ h => ReadEntryRequest.restored h.short,
    fun _ h => SyncInfo.ofResponse_toResponse (Element.short_of_length_lt h)⟩

/-- A view, the null name, the attributes of an entry and a phase of a synchronization come back; a
request to sort by nothing does not. -/
theorem controls_restored_views_and_empty_sort :
    let view : AnyControl := .viewRequest ⟨1, 2, .offset 3 400, some [0x01], true⟩
    let sort : AnyControl := .sortRequest ⟨[], true⟩
    let root : AnyControl := .proxiedName ⟨.null⟩
    let request : ReadEntryRequest .before := ⟨["cn", "sn"], true⟩
    let phase : SyncInfo := .refresh .delete (some [0x61]) false
    view.control.Fits ∧ view.Restored ∧ sort.control.Fits ∧ ¬ sort.Restored ∧
      root.control.Fits ∧ root.Restored ∧ (toControl request).Fits ∧ Restored request ∧
      phase.encode.encode.length < 2 ^ 32 ∧
      SyncInfo.ofResponse phase.toResponse = .ok phase := by
  intro view sort root request phase
  have hview : view.control.Fits := by
    rintro _ ⟨⟩
    decide +kernel
  have hsort : sort.control.Fits := by
    rintro _ ⟨⟩
    decide +kernel
  have hroot : root.control.Fits := by
    rintro _ ⟨⟩
    decide +kernel
  have hrequest : (toControl request).Fits := by
    rintro _ ⟨⟩
    decide +kernel
  have hphase : phase.encode.encode.length < 2 ^ 32 := by decide +kernel
  refine ⟨hview, (controls_restored.1 view hview).2 trivial, hsort, fun h => ?_, hroot,
    (controls_restored.1 root hroot).2 ⟨.null, rfl, rfl⟩, hrequest,
    controls_restored.2.1 .before request hrequest, hphase, controls_restored.2.2 phase hphase⟩
  exact (controls_restored.1 sort hsort).1 h rfl

end Ldap
