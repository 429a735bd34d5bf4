import Ldap.Proofs.Ber.Integer
import Ldap.Proofs.Ber.Length

/-!
# Elements on the wire

What `Element.encode` writes is read back by `Element.parse`, whatever follows (`parse_encode`), and
what is accepted as an element is no shorter than the element written again
(`exists_prefix_of_parse`). The same goes for the members of a constructed element, which `Holds`
names together with its tag.
-/

namespace Ldap

/-! ## Texts -/

/-- Bytes are read as a text exactly if they are what it is written as. -/
theorem Text.Utf8.decode_eq_ok_iff {bytes : List UInt8} {s : String} :
    decode bytes = .ok s ↔ encode s = bytes := by
  unfold decode decode? String.fromUTF8? encode
  split
  · next t ht =>
    split at ht
    · cases ht
      rw [Except.ok.injEq, ← String.toByteArray_inj]
      change ByteArray.mk bytes.toArray = s.toByteArray ↔ _
      constructor
      · intro h
        rw [← h]
      · intro heq
        subst heq
        rfl
    · cases ht
  · next hnone =>
    split at hnone
    · cases hnone
    · next hvalid =>
      simp only [reduceCtorEq, false_iff]
      -- texts are written as valid bytes, so that invalid ones are written by none
      intro heq
      subst heq
      exact hvalid s.isValidUTF8

theorem Text.Utf8.decode?_eq_some_iff {bytes : List UInt8} {s : String} :
    decode? bytes = some s ↔ encode s = bytes := by
  rw [← decode_eq_ok_iff, decode]
  cases decode? bytes <;> simp

namespace Ber.Element

/-! ## Single elements -/

/-- An element takes one byte for its tag and the room of its length and its content. -/
theorem length_encode (e : Element) :
    e.encode.length = 1 + Length.encodedSize e.content.length + e.content.length := by
  simp only [encode, List.length_cons, List.length_append, Length.length_encode]
  omega

/-- Whatever the tags, an element with more content takes more room. -/
theorem length_encode_mono {e e' : Element} (h : e.content.length ≤ e'.content.length) :
    e.encode.length ≤ e'.encode.length := by
  have hsize := Length.encodedSize_mono h
  rw [length_encode, length_encode]
  omega

theorem length_content_lt (e : Element) : e.content.length < e.encode.length := by
  rw [length_encode]
  omega

/-- An element with less than four gigabytes of content, the most that a length can tell of. -/
def Short (e : Element) : Prop :=
  e.content.length < 2 ^ 32

/-- The length of an element that takes less than four gigabytes can be read. -/
theorem short_of_length_lt {e : Element} (h : e.encode.length < 2 ^ 32) : e.Short :=
  lt_trans e.length_content_lt h

/-- An element that takes no more room than a short one is short. -/
theorem Short.of_le {e e' : Element} (h : e.Short) (hle : e'.encode.length ≤ e.encode.length) :
    e'.Short := by
  by_contra hlong
  have hlt : e.content.length < e'.content.length := lt_of_lt_of_le h (not_lt.1 hlong)
  have hsize := Length.encodedSize_mono hlt.le
  rw [length_encode, length_encode] at hle
  omega

/-- Behind the tag, as many bytes as the length tells are the content. There may be more, which are
left. -/
theorem parse_cons_eq_ok_iff {tag : Tag} {body rest : List UInt8} {e : Element} :
    parse (tag :: body) = .ok (e, rest) ↔
      ∃ n tail, Length.decode body = .ok (n, tail) ∧ n ≤ tail.length ∧
        e = ⟨tag, tail.take n⟩ ∧ rest = tail.drop n := by
  simp only [parse]
  cases hlength : Length.decode body with
  | error e => cases e <;> simp
  | ok x =>
    rcases x with ⟨n, tail⟩
    simp only [Except.ok.injEq, Prod.mk.injEq]
    -- whether as many bytes are there as the length says
    split
    · simp only [reduceCtorEq, false_iff]
      intro h
      rcases h with ⟨_, _, ⟨rfl, rfl⟩, hle, -⟩
      omega
    · next hlen =>
      simp only [Except.ok.injEq, Prod.mk.injEq]
      constructor
      · intro h
        rcases h with ⟨rfl, rfl⟩
        exact ⟨n, tail, ⟨rfl, rfl⟩, by omega, rfl, rfl⟩
      · intro h
        rcases h with ⟨_, _, ⟨rfl, rfl⟩, -, rfl, rfl⟩
        exact ⟨rfl, rfl⟩

/-- An element that was written is read back, and what follows it is left. -/
theorem parse_encode {e : Element} (h : e.content.length < 2 ^ 32) (rest : List UInt8) :
    parse (e.encode ++ rest) = .ok (e, rest) := by
  unfold encode
  rw [List.cons_append, List.append_assoc]
  exact parse_cons_eq_ok_iff.2
    ⟨_, _, Length.decode_encode h _, by simp, by rw [List.take_left], by rw [List.drop_left]⟩

/-- An element is read without a look at what follows it. -/
theorem parse_append {bytes rest : List UInt8} {e : Element} (h : parse bytes = .ok (e, rest))
    (tail : List UInt8) : parse (bytes ++ tail) = .ok (e, rest ++ tail) := by
  cases bytes with
  | nil => cases h
  | cons tag body =>
    rcases parse_cons_eq_ok_iff.1 h with ⟨n, content, hlength, hle, rfl, rfl⟩
    rw [List.cons_append]
    exact parse_cons_eq_ok_iff.2 ⟨n, _, Length.decode_append hlength tail, hle.trans (by simp),
      by rw [List.take_append_of_le_length hle], by rw [List.drop_append_of_le_length hle]⟩

/-- What is accepted as an element takes no less room than the element written again. -/
theorem exists_prefix_of_parse {bytes rest : List UInt8} {e : Element}
    (h : parse bytes = .ok (e, rest)) :
    ∃ head, bytes = head ++ rest ∧ e.encode.length ≤ head.length := by
  cases bytes with
  | nil => cases h
  | cons tag body =>
    rcases parse_cons_eq_ok_iff.1 h with ⟨n, tail, hlength, hle, rfl, rfl⟩
    obtain ⟨-, head, rfl, hsize⟩ := Length.exists_prefix_of_decode hlength
    refine ⟨tag :: (head ++ tail.take n), by simp, ?_⟩
    rw [length_encode]
    simp only [List.length_take, Nat.min_eq_left hle, List.length_cons, List.length_append]
    omega

/-- What is read as one element and nothing else has nothing left behind it. -/
theorem decode_eq_ok_iff {bytes : List UInt8} {e : Element} :
    decode bytes = .ok e ↔ parse bytes = .ok (e, []) := by
  simp only [decode, bind, Except.bind]
  cases parse bytes with
  | error fault => simp
  | ok x =>
    rcases x with ⟨e', rest⟩
    cases rest <;> simp

/-- An element that was written is read back. -/
theorem decode_encode {e : Element} (h : e.Short) : decode e.encode = .ok e := by
  have hparse := parse_encode h []
  rw [List.append_nil] at hparse
  exact decode_eq_ok_iff.2 hparse

/-- An element whose content is too long for a length is written, but it is not read back. -/
theorem decode_encode_ne_ok {e : Element} (h : 2 ^ 32 ≤ e.content.length)
    (hlt : e.content.length < 2 ^ 64) (e' : Element) : decode e.encode ≠ .ok e' := by
  rw [Ne, decode_eq_ok_iff, encode, parse_cons_eq_ok_iff, Length.decode_encode_of_le h hlt]
  rintro ⟨n, tail, hlength, -⟩
  cases hlength

/-- An element is read exactly from its tag, what spells the size of its content, and its
content. -/
theorem decode_eq_ok_iff_spelled {bytes : List UInt8} {e : Element} :
    decode bytes = .ok e ↔
      ∃ length, Length.Spelled length e.content.length ∧
        bytes = e.tag :: (length ++ e.content) := by
  rw [decode_eq_ok_iff]
  constructor
  · intro h
    cases bytes with
    | nil => cases h
    | cons tag body =>
      obtain ⟨n, tail, hlength, hle, rfl, hrest⟩ := parse_cons_eq_ok_iff.1 h
      obtain ⟨length, hspelled, rfl⟩ := Length.decode_eq_ok_iff_spelled.1 hlength
      obtain rfl : n = tail.length := le_antisymm hle (List.drop_eq_nil_iff.1 hrest.symm)
      rw [List.take_length]
      exact ⟨length, hspelled, rfl⟩
  · rintro ⟨length, hspelled, rfl⟩
    have hlength : Length.decode (length ++ e.content) = .ok (e.content.length, e.content) :=
      Length.decode_eq_ok_iff_spelled.2 ⟨_, hspelled, rfl⟩
    exact parse_cons_eq_ok_iff.2 ⟨_, _, hlength, le_rfl,
      by rw [List.take_length], by rw [List.drop_length]⟩

/-! ## Members -/

/-- The room that elements take together. -/
def size (es : List Element) : Nat :=
  (es.flatMap encode).length

@[simp] theorem size_nil : size [] = 0 := rfl

@[simp] theorem size_cons (e : Element) (es : List Element) :
    size (e :: es) = e.encode.length + size es := by
  simp [size]

@[simp] theorem size_append (es es' : List Element) : size (es ++ es') = size es + size es' := by
  simp [size]

/-- An element among others takes no more room than all of them. -/
theorem length_encode_le_size {e : Element} {es : List Element} (h : e ∈ es) :
    e.encode.length ≤ size es := by
  obtain ⟨before, after, rfl⟩ := List.append_of_mem h
  simp only [size_append, size_cons]
  omega

/-- The members of a short element fit into the room that a length can tell of. -/
theorem Short.size {tag : Tag} {es : List Element} (h : (constructed tag es).Short) :
    size es < 2 ^ 32 :=
  h

/-- What stands in a short element is short. -/
theorem Short.member {tag : Tag} {es : List Element} (h : (constructed tag es).Short) {e : Element}
    (he : e ∈ es) : e.Short :=
  short_of_length_lt (lt_of_le_of_lt (length_encode_le_size he) h.size)

/-- Bytes hold no element exactly if there are none. -/
theorem parseAll_eq_ok_nil_iff {bytes : List UInt8} : parseAll bytes = .ok [] ↔ bytes = [] := by
  rw [parseAll]
  split
  · next hempty => simpa using hempty
  · next hempty =>
    have hne : bytes ≠ [] := by simpa using hempty
    simp only [hne, iff_false]
    split
    · simp
    · split <;> simp

/-- Bytes hold a first element and others exactly if it is read from their front, and the others
from what it leaves. -/
theorem parseAll_eq_ok_cons_iff {bytes : List UInt8} {e : Element} {es : List Element} :
    parseAll bytes = .ok (e :: es) ↔
      ∃ rest, parse bytes = .ok (e, rest) ∧ parseAll rest = .ok es := by
  rw [parseAll]
  split
  · next hempty =>
    obtain rfl := List.isEmpty_iff.1 hempty
    simp [parse]
  · split
    · next fault hparse => simp [hparse]
    · next e' rest hparse =>
      dsimp only
      simp only [hparse, Except.ok.injEq, Prod.mk.injEq]
      cases hrest : parseAll rest with
      | error fault =>
        simp only [reduceCtorEq, false_iff]
        intro h
        rcases h with ⟨_, ⟨-, rfl⟩, hes⟩
        rw [hrest] at hes
        cases hes
      | ok es' =>
        simp only [Except.ok.injEq, List.cons.injEq]
        constructor
        · intro h
          rcases h with ⟨rfl, rfl⟩
          exact ⟨rest, ⟨rfl, rfl⟩, hrest⟩
        · intro h
          rcases h with ⟨_, ⟨rfl, rfl⟩, hes⟩
          rw [hrest] at hes
          cases hes
          exact ⟨rfl, rfl⟩

/-- Elements that were written one after the other are read back. -/
theorem parseAll_flatMap_encode {es : List Element} (h : size es < 2 ^ 32) :
    parseAll (es.flatMap encode) = .ok es := by
  induction es with
  | nil => exact parseAll_eq_ok_nil_iff.2 rfl
  | cons e es ih =>
    rw [size_cons] at h
    have hlt := e.length_content_lt
    exact parseAll_eq_ok_cons_iff.2 ⟨_, parse_encode (by omega) _, ih (by omega)⟩

/-- What is split into elements takes no less room than the elements written again. -/
theorem size_le_of_parseAll {bytes : List UInt8} {es : List Element}
    (h : parseAll bytes = .ok es) : size es ≤ bytes.length := by
  -- on the elements, the first of which is taken off the bytes
  induction es generalizing bytes with
  | nil => simp
  | cons e es ih =>
    rcases parseAll_eq_ok_cons_iff.1 h with ⟨rest, hparse, hes⟩
    obtain ⟨head, rfl, hhead⟩ := exists_prefix_of_parse hparse
    have hrest := ih hes
    rw [size_cons, List.length_append]
    omega

/-- The tag of an element, with the members that its content is split into. -/
def Holds (e : Element) (tag : Tag) (es : List Element) : Prop :=
  e.tag = tag ∧ e.members = .ok es

/-- A short element that was made of others holds these. -/
theorem holds_constructed {tag : Tag} {es : List Element} (h : (constructed tag es).Short) :
    (constructed tag es).Holds tag es :=
  ⟨rfl, parseAll_flatMap_encode h.size⟩

theorem Holds.tag_eq {e : Element} {tag : Tag} {es : List Element} (h : e.Holds tag es) :
    e.tag = tag :=
  h.1

/-- Members that take no more room than those that were read make no longer element. -/
theorem Holds.constructed_le {e : Element} {tag : Tag} {es es' : List Element} (h : e.Holds tag es)
    (tag' : Tag) (hsize : size es' ≤ size es) :
    (constructed tag' es').encode.length ≤ e.encode.length :=
  length_encode_mono (le_trans hsize (size_le_of_parseAll h.2))

/-! ## Typed views -/

@[simp] theorem tag_stringTagged (tag : Tag) (s : String) : (stringTagged tag s).tag = tag := rfl

@[simp] theorem tag_booleanTagged (tag : Tag) (b : Bool) : (booleanTagged tag b).tag = tag := rfl

@[simp] theorem tag_constructed (tag : Tag) (es : List Element) : (constructed tag es).tag = tag :=
  rfl

/-- A view that first looks at the tag accepts nothing under another one. -/
theorem expectTag_bind_eq_ok_iff {α : Type} {e : Element} {tag : Tag} {kind : ContentKind}
    {x : Except Error α} {a : α} :
    (e.expectTag tag kind >>= fun _ => x) = .ok a ↔ e.tag = tag ∧ x = .ok a := by
  unfold expectTag
  split
  · next htag => simp [htag, bind, Except.bind]
  · next htag => simp [htag, bind, Except.bind]

/-- The members of a sequence are read if it has its tag and they fill it. -/
theorem asSequenceTagged_eq_ok_iff {e : Element} {tag : Tag} {es : List Element} :
    e.asSequenceTagged tag = .ok es ↔ e.Holds tag es :=
  expectTag_bind_eq_ok_iff

theorem asSet_eq_ok_iff {e : Element} {es : List Element} :
    e.asSet = .ok es ↔ e.Holds .set es :=
  expectTag_bind_eq_ok_iff

/-- Octets are any content under their tag. -/
theorem asOctetsTagged_eq_ok_iff {e : Element} {tag : Tag} {bytes : List UInt8} :
    e.asOctetsTagged tag = .ok bytes ↔ e = ⟨tag, bytes⟩ := by
  rcases e with ⟨actual, content⟩
  rw [asOctetsTagged, expectTag_bind_eq_ok_iff, Except.ok.injEq, Element.mk.injEq]

/-- A content is read as the one text that is written with its bytes. -/
theorem text_eq_ok_iff {e : Element} {s : String} :
    e.text = .ok s ↔ e.content = Text.Utf8.encode s := by
  rw [@eq_comm _ e.content, ← Text.Utf8.decode_eq_ok_iff, text]
  split <;> simp_all

/-- A text is read from the one element that it is written as. -/
theorem asStringTagged_eq_ok_iff {e : Element} {tag : Tag} {s : String} :
    e.asStringTagged tag = .ok s ↔ e = stringTagged tag s := by
  rcases e with ⟨actual, content⟩
  rw [asStringTagged, expectTag_bind_eq_ok_iff, text_eq_ok_iff, stringTagged, Element.mk.injEq]

@[simp] theorem asStringTagged_stringTagged (tag : Tag) (s : String) :
    (stringTagged tag s).asStringTagged tag = .ok s :=
  asStringTagged_eq_ok_iff.2 rfl

/-- A number is read from its tag and its content; the same number may have several contents. -/
theorem asIntegerTagged_eq_ok_iff {e : Element} {tag : Tag} {v : Int64} :
    e.asIntegerTagged tag = .ok v ↔ e.tag = tag ∧ Integer.decode .integer e.content = .ok v :=
  expectTag_bind_eq_ok_iff

theorem asInt32Tagged_eq_ok_iff {e : Element} {tag : Tag} {v : Int32} :
    e.asInt32Tagged tag = .ok v ↔ e.tag = tag ∧ Integer.decode32 .integer e.content = .ok v :=
  expectTag_bind_eq_ok_iff

theorem asEnumeratedTagged_eq_ok_iff {e : Element} {tag : Tag} {v : Int32} :
    e.asEnumeratedTagged tag = .ok v ↔
      e.tag = tag ∧ Integer.decode32 .enumerated e.content = .ok v :=
  expectTag_bind_eq_ok_iff

/-- A truth is one byte, and any byte but zero is true. -/
theorem truth_eq_ok_iff {e : Element} {b : Bool} :
    e.truth = .ok b ↔ ∃ byte, e.content = [byte] ∧ b = (byte != 0) := by
  unfold truth
  split
  · next byte hcontent => simp [hcontent, eq_comm]
  · next hother =>
    simp only [reduceCtorEq, false_iff]
    intro h
    rcases h with ⟨byte, hcontent, -⟩
    exact hother byte hcontent

/-- A truth is read from any element of its tag with a single byte. -/
theorem asBooleanTagged_eq_ok_iff {e : Element} {tag : Tag} {b : Bool} :
    e.asBooleanTagged tag = .ok b ↔ e.tag = tag ∧ ∃ byte, e.content = [byte] ∧ b = (byte != 0) := by
  rw [← truth_eq_ok_iff]
  exact expectTag_bind_eq_ok_iff

@[simp] theorem asBooleanTagged_booleanTagged (tag : Tag) (b : Bool) :
    (booleanTagged tag b).asBooleanTagged tag = .ok b :=
  asBooleanTagged_eq_ok_iff.2 ⟨rfl, _, rfl, by cases b <;> rfl⟩

/-- An element without content is the only one that stands for nothing. -/
theorem asNullTagged_eq_ok_iff {e : Element} {tag : Tag} :
    e.asNullTagged tag = .ok () ↔ e = ⟨tag, []⟩ := by
  rcases e with ⟨actual, content⟩
  rw [asNullTagged, expectTag_bind_eq_ok_iff, nothing, Element.mk.injEq]
  split <;> simp_all

/-! ## Plain values -/

@[simp] theorem tag_octetString (bytes : List UInt8) : (octetString bytes).tag = .octetString :=
  rfl

@[simp] theorem tag_boolean (b : Bool) : (boolean b).tag = .boolean := rfl

@[simp] theorem tag_integer (v : Int) : (integer v).tag = .integer := rfl

/-- A flag behind a cookie is told from the cookie. -/
@[simp] theorem boolean_ne_octetString : Tag.boolean ≠ .octetString := by decide

@[simp] theorem integer_ne_octetString : Tag.integer ≠ .octetString := by decide

@[simp] theorem content_octetString (bytes : List UInt8) : (octetString bytes).content = bytes :=
  rfl

@[simp] theorem asOctets_octetString (bytes : List UInt8) :
    (octetString bytes).asOctets = .ok bytes := rfl

@[simp] theorem asString_string (s : String) : (string s).asString = .ok s :=
  asStringTagged_stringTagged _ _

@[simp] theorem asBoolean_boolean (b : Bool) : (boolean b).asBoolean = .ok b :=
  asBooleanTagged_booleanTagged _ _

@[simp] theorem asInteger_integer (v : Int64) : (integer v.toInt).asInteger = .ok v :=
  Integer.decode_encode _ v

@[simp] theorem asInt32_integer (v : Int32) : (integer v.toInt).asInt32 = .ok v :=
  asInt32Tagged_eq_ok_iff.2 ⟨rfl, Integer.decode32_encode _ _⟩

@[simp] theorem asEnumerated_enumerated (v : Int32) :
    (enumerated v.toInt).asEnumerated = .ok v :=
  asEnumeratedTagged_eq_ok_iff.2 ⟨rfl, Integer.decode32_encode _ _⟩

end Ber.Element
end Ldap
