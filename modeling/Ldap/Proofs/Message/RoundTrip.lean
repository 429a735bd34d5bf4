import Ldap.Proofs.Message.Grammar
import Mathlib.Tactic

/-!
# Messages written again

The same message can be spelled in many ways: with lengths and numbers that take more bytes than
they need, with truth as any byte but zero, or with lists that are empty and could be left out. Of
all these spellings the one that is written is the shortest, and it is accepted as well.
-/

namespace Ldap.Message

open Ber (Element)

/-- The members that a message is written as. -/
def members (m : Message) : List Element :=
  .integer m.id.toInt :: m.op.encode
    :: (if m.controls.isEmpty then [] else [Control.encodeAll m.controls])

/-- What a message is written as takes no more room than what it was read from. -/
theorem size_members_le {es : List Element} {m : Message} (h : Spells es m) :
    Element.size m.members ≤ Element.size es := by
  rcases h with ⟨id, op, extras, rfl, -, hid, hop, hextras⟩
  have hleId : (Element.integer m.id.toInt).encode.length ≤ id.encode.length :=
    Element.length_encode_mono (Ber.Integer.length_encode_le_of_decode32 hid)
  have hleOp := Operation.faithful.shrinks hop
  have hleExtras : Element.size (if m.controls.isEmpty then [] else [Control.encodeAll m.controls])
      ≤ Element.size extras := by
    -- no controls are written as no member, even if an empty list was read
    by_cases hempty : m.controls.isEmpty
    · rw [if_pos hempty, Element.size_nil]
      exact Nat.zero_le _
    · rw [if_neg hempty]
      rcases hextras with ⟨-, hnil⟩ | ⟨e, rfl, hcs⟩
      · rw [hnil] at hempty
        exact absurd rfl hempty
      · have hle := Control.faithful_all.shrinks hcs
        rwa [Element.size_cons, Element.size_nil, Element.size_cons, Element.size_nil]
  unfold members
  rw [Element.size_cons, Element.size_cons, Element.size_cons, Element.size_cons]
  omega

/-- What a message is written as spells it, once it was spelled in some way. -/
theorem spells_members {es : List Element} {m : Message} (h : Spells es m)
    (hsize : Element.size m.members < 2 ^ 32) : Spells m.members m := by
  rcases h with ⟨id, op, extras, rfl, hnonneg, -, hop, -⟩
  have hshort {e : Element} (he : e ∈ m.members) : e.Short :=
    Element.short_of_length_lt (lt_of_le_of_lt (Element.length_encode_le_size he) hsize)
  refine ⟨_, _, _, rfl, hnonneg, Ber.Integer.decode32_encode _ _, ?_, ?_⟩
  · exact Operation.faithful.reads (Operation.faithful.good hop) (hshort (by simp [members]))
  · by_cases hempty : m.controls.isEmpty
    · exact .inl ⟨if_pos hempty, List.isEmpty_iff.1 hempty⟩
    · refine .inr ⟨_, if_neg hempty, Control.faithful_all.reads trivial (hshort ?_)⟩
      simp [members, hempty]

/-- What stands in the envelope of a message is written again in no more bytes. -/
theorem length_content_le {e : Element} {es : List Element} {m : Message}
    (hes : e.Holds .sequence es) (hm : Spells es m) :
    m.toElement.content.length ≤ e.content.length :=
  (size_members_le hm).trans (Element.size_le_of_parseAll hes.2)

/-- A message that is accepted within a limit is written as bytes that are no more than those it was
read from, and that are accepted within the same limit. -/
theorem reencode_of_decodeWithin {limit : Nat} {bytes : List UInt8} {m : Message}
    (hlimit : limit < 2 ^ 32) (h : decodeWithin limit bytes = .ok m) :
    m.encode.length ≤ bytes.length ∧ decodeWithin limit m.encode = .ok m := by
  rcases decodeWithin_eq_ok_iff.1 h with ⟨e, es, hdecode, hle, hes, hm⟩
  have hsize := size_members_le hm
  have hcontent := (length_content_le hes hm).trans hle
  constructor
  · obtain ⟨head, rfl, hhead⟩ :=
      Element.exists_prefix_of_parse (Element.decode_eq_ok_iff.1 hdecode)
    rw [List.append_nil]
    exact (hes.constructed_le _ hsize).trans hhead
  · -- what is written is one sequence of the members, and not too long
    have hlt : m.toElement.content.length < 2 ^ 32 := lt_of_le_of_lt hcontent hlimit
    have hparse := Element.parse_encode hlt []
    rw [List.append_nil] at hparse
    exact decodeWithin_eq_ok_iff.2 ⟨m.toElement, m.members, Element.decode_eq_ok_iff.2 hparse,
      hcontent, ⟨rfl, Element.parseAll_flatMap_encode hlt⟩, spells_members hm hlt⟩

/-- However the bytes of a message were spelled, the message is written again in no more bytes, and
those are accepted as the same message. -/
theorem decode_encode_of_decode {bytes : List UInt8} {m : Message} (h : decode bytes = .ok m) :
    m.encode.length ≤ bytes.length ∧ decode m.encode = .ok m :=
  reencode_of_decodeWithin (by decide) h

/-- The end of a search, with long lengths and numbers, an empty list of referrals, and controls one
of which is said to be uncritical and the other to be critical by a small number. -/
theorem decode_encode_of_long_spelling :
    let bytes := [0x30, 0x81, 0x25, 0x02, 0x02, 0x00, 0x01, 0x65, 0x81, 0x0a, 0x0a, 0x02, 0x00,
      0x00, 0x04, 0x00, 0x04, 0x00, 0xa3, 0x00, 0xa0, 0x12, 0x30, 0x07, 0x04, 0x02, 0x31, 0x30,
      0x01, 0x01, 0x00, 0x30, 0x07, 0x04, 0x02, 0x31, 0x31, 0x01, 0x01, 0x01]
    let m : Message := ⟨1, .done .search ⟨⟨0⟩, none, none, []⟩,
      [⟨"10", false, none⟩, ⟨"11", true, none⟩]⟩
    decode bytes = .ok m ∧ m.encode.length ≤ bytes.length ∧ decode m.encode = .ok m := by
  intro bytes m
  have h : decode bytes = .ok m := by decide +kernel
  exact ⟨h, decode_encode_of_decode h⟩

end Ldap.Message
