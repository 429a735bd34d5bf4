import Ldap.Proofs.Ber.Walk
import Ldap.Proofs.Message.Grammar
import Mathlib.Tactic

/-!
# The bytes of a message

`Message.decode_eq_ok_iff_members_spelled` accounts for every byte of what is accepted as a message:
the tag of a sequence, a length that covers the rest, and in it an identifier, an operation and
perhaps controls, each with a tag, a length and its content. The tag of the identifier alone is not
looked at, as the reader takes a number whatever its tag.
-/

namespace Ldap

open Ber (Element Tag)

namespace Ber.Element

/-- The bytes that an element is read from: its tag, what spells the size of its content, and its
content. -/
def Spelled (e : Element) (bytes : List UInt8) : Prop :=
  ∃ length, Length.Spelled length e.content.length ∧ bytes = e.tag :: (length ++ e.content)

/-- An element is read from what spells it, whatever follows. -/
theorem parse_eq_ok_iff_exists_spelled {bytes rest : List UInt8} {e : Element} :
    parse bytes = .ok (e, rest) ↔ ∃ spelled, e.Spelled spelled ∧ bytes = spelled ++ rest := by
  constructor
  · intro h
    obtain ⟨spelled, rfl, hspelled⟩ := exists_spelling_of_parse h
    refine ⟨spelled, decode_eq_ok_iff_spelled.1 (decode_eq_ok_iff.2 ?_), rfl⟩
    simpa using hspelled []
  · rintro ⟨spelled, hspelled, rfl⟩
    have hdecode : decode spelled = .ok e := decode_eq_ok_iff_spelled.2 hspelled
    exact parse_append (decode_eq_ok_iff.1 hdecode) rest

/-- Bytes are split into elements exactly if they are what spells them, one after the other. -/
theorem parseAll_eq_ok_iff_spelled {bytes : List UInt8} {es : List Element} :
    parseAll bytes = .ok es ↔
      ∃ spellings, List.Forall₂ Spelled es spellings ∧ bytes = spellings.flatten := by
  -- on the elements, the first of which is spelled by the front of the bytes
  induction es generalizing bytes with
  | nil =>
    rw [parseAll_eq_ok_nil_iff]
    constructor
    · rintro rfl
      exact ⟨[], .nil, rfl⟩
    · rintro ⟨_, ⟨⟩, rfl⟩
      rfl
  | cons e es ih =>
    rw [parseAll_eq_ok_cons_iff]
    constructor
    · rintro ⟨rest, hparse, hes⟩
      obtain ⟨spelled, hspelled, rfl⟩ := parse_eq_ok_iff_exists_spelled.1 hparse
      obtain ⟨spellings, hspellings, rfl⟩ := ih.1 hes
      exact ⟨spelled :: spellings, .cons hspelled hspellings, rfl⟩
    · rintro ⟨_, hspellings, rfl⟩
      cases hspellings with
      | @cons _ spelled _ spellings hspelled hspellings =>
        exact ⟨spellings.flatten, parse_eq_ok_iff_exists_spelled.2 ⟨spelled, hspelled, rfl⟩,
          ih.2 ⟨spellings, hspellings, rfl⟩⟩

end Ber.Element

/-! ## The tags of operations -/

/-- The tags that operations are told by. -/
def Operation.tags : List Tag :=
  [0x60, 0x61, 0x42, 0x63, 0x64, 0x65, 0x73, 0x66, 0x67, 0x68, 0x69, 0x4A, 0x6B, 0x6C, 0x6D, 0x6E,
    0x6F, 0x50, 0x77, 0x78, 0x79]

theorem Operation.tag_mem_tags (op : Operation) : op.tag ∈ tags := by
  cases op with
  | done kind r =>
    show kind.tag ∈ tags
    cases kind <;> decide
  | _ =>
    simp only [tag]
    decide

example : Operation.tags.length = 21 ∧ Operation.tags.Nodup := by decide

namespace Message

/-- What an identifier is read from: the bytes of a number that is not negative and has 32 bits, be
the element of whatever tag. -/
structure IdSpelled (e : Element) (id : Int32) : Prop where
  ne_nil : e.content ≠ []
  length_le : e.content.length ≤ 8
  value : Ber.Integer.value e.content = id.toInt
  nonneg : 0 ≤ id.toInt

/-- What controls are read from: nothing, or one element with their tag that is split into them. -/
def ControlsSpelled (es : List Element) (cs : List Control) : Prop :=
  es = [] ∧ cs = [] ∨
    ∃ e members, es = [e] ∧ e.tag = 0xA0 ∧ e.members = .ok members ∧
      List.Forall₂ (fun member c => Control.decode member = .ok c) members cs

theorem idSpelled_iff {e : Element} {id : Int32} :
    IdSpelled e id ↔ 0 ≤ id ∧ Ber.Integer.decode32 .integer e.content = .ok id := by
  rw [Ber.Integer.decode32_eq_ok_iff, Int32.le_iff_toInt_le]
  constructor
  · intro h
    exact ⟨h.nonneg, h.ne_nil, h.length_le, h.value.symm⟩
  · rintro ⟨hnonneg, hne, hlength, hvalue⟩
    exact ⟨hne, hlength, hvalue.symm, hnonneg⟩

theorem controlsSpelled_iff {es : List Element} {cs : List Control} :
    ControlsSpelled es cs ↔
      es = [] ∧ cs = [] ∨ ∃ e, es = [e] ∧ Control.decodeAll e = .ok cs := by
  refine or_congr_right (exists_congr fun e => ?_)
  rw [Control.decodeAll_eq_ok_iff]
  constructor
  · rintro ⟨members, rfl, htag, hmembers, hcs⟩
    exact ⟨rfl, members, ⟨htag, hmembers⟩, hcs⟩
  · rintro ⟨rfl, members, hholds, hcs⟩
    exact ⟨members, rfl, hholds.tag_eq, hholds.2, hcs⟩

theorem spells_iff {es : List Element} {m : Message} :
    Spells es m ↔ ∃ id op extras, es = id :: op :: extras ∧ IdSpelled id m.id ∧
      op.tag ∈ Operation.tags ∧ Operation.decode op = .ok m.op ∧
      ControlsSpelled extras m.controls := by
  simp only [Spells, idSpelled_iff, controlsSpelled_iff]
  constructor
  · rintro ⟨id, op, extras, rfl, hid, hvalue, hop, hextras⟩
    have htag : op.tag ∈ Operation.tags :=
      (Operation.decode_eq_ok_iff.1 hop).tag_eq ▸ Operation.tag_mem_tags m.op
    exact ⟨id, op, extras, rfl, ⟨hid, hvalue⟩, htag, hop, hextras⟩
  · rintro ⟨id, op, extras, rfl, ⟨hid, hvalue⟩, -, hop, hextras⟩
    exact ⟨id, op, extras, rfl, hid, hvalue, hop, hextras⟩

/-- Bytes are accepted as a message exactly if they are the tag of a sequence, what spells the size
of the rest, which is not beyond the limit, and what spells an identifier, an operation with one of
the tags of operations, and controls if there are any; the message consists of these. -/
theorem decode_eq_ok_iff_members_spelled {bytes : List UInt8} {m : Message} :
    decode bytes = .ok m ↔
      ∃ (length : List UInt8) (id op : Element) (extras : List Element)
        (spellings : List (List UInt8)),
        bytes = 0x30 :: (length ++ spellings.flatten) ∧
        Ber.Length.Spelled length spellings.flatten.length ∧
        spellings.flatten.length ≤ Ber.defaultLimit ∧
        List.Forall₂ Element.Spelled (id :: op :: extras) spellings ∧
        IdSpelled id m.id ∧
        (op.tag ∈ Operation.tags ∧ Operation.decode op = .ok m.op) ∧
        ControlsSpelled extras m.controls := by
  rw [decode, decodeWithin_eq_ok_iff]
  constructor
  · rintro ⟨⟨tag, content⟩, es, hdecode, hlimit, ⟨htag, hmembers⟩, hm⟩
    obtain rfl : tag = .sequence := htag
    obtain ⟨length, hlength, rfl⟩ := Element.decode_eq_ok_iff_spelled.1 hdecode
    obtain ⟨spellings, hspellings, rfl⟩ := Element.parseAll_eq_ok_iff_spelled.1 hmembers
    obtain ⟨id, op, extras, rfl, hid, htag, hop, hextras⟩ := spells_iff.1 hm
    exact ⟨length, id, op, extras, spellings, rfl, hlength, hlimit, hspellings, hid, ⟨htag, hop⟩,
      hextras⟩
  · rintro ⟨length, id, op, extras, spellings, rfl, hlength, hlimit, hspellings, hid, ⟨htag, hop⟩,
      hextras⟩
    refine ⟨⟨.sequence, spellings.flatten⟩, id :: op :: extras,
      Element.decode_eq_ok_iff_spelled.2 ⟨length, hlength, rfl⟩, hlimit, ⟨rfl, ?_⟩,
      spells_iff.2 ⟨id, op, extras, rfl, hid, htag, hop, hextras⟩⟩
    exact Element.parseAll_eq_ok_iff_spelled.2 ⟨spellings, hspellings, rfl⟩

/-- An identifier with the tag of an octet string is accepted. -/
theorem decode_octetString_id :
    let bytes : List UInt8 := [0x30, 0x05, 0x04, 0x01, 0x01, 0x42, 0x00]
    decode bytes = .ok ⟨1, .unbindRequest, []⟩ ∧
      ∃ e es, Element.decode bytes = .ok e ∧ e.members = .ok es ∧
        es.map (·.tag) = [.octetString, Operation.unbindTag] := by
  refine ⟨by decide +kernel, ⟨.sequence, [0x04, 0x01, 0x01, 0x42, 0x00]⟩,
    [⟨.octetString, [0x01]⟩, ⟨Operation.unbindTag, []⟩], by decide +kernel, by decide +kernel,
    by decide +kernel⟩

end Message
end Ldap
