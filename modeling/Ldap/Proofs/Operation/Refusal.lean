import Ldap.Control.Basic
import Ldap.Operation.Basic
import Ldap.Proofs.Ber.Refusal

/-!
# Why operations and controls are refused

Every decoder of a filter, a control or an operation refuses an element for its content alone.
-/

namespace Ldap

open Ber (Element Tag)
open ProtocolError (IsContent)

/-! ## Filters -/

namespace Filter

theorem decodeCompare_refuses (relation : Relation) (e : Element) :
    Refuses (decodeCompare relation e) IsContent := by
  refine .members fun members => ?_
  split
  · exact .bind (.lift (Element.asStringTagged_refuses ..)) fun _ =>
      .map (.lift (Element.asOctetsTagged_refuses ..)) _
  · exact .error trivial

/-- The pieces of a substring are refused for a tag that may not stand where it stands: the first
piece of the text comes first, the last one last. -/
theorem decodeParts_refuses (first : Bool) (es : List Element) :
    Refuses (decodeParts first es) IsContent := by
  induction es generalizing first with
  | nil => exact .ok _
  | cons e es ih =>
    unfold decodeParts
    split
    · exact .map (ih false) _
    split
    · exact .map (ih false) _
    split
    · exact .ok _
    split
    · exact .error trivial
    · exact .error trivial

/-- Substrings are refused for the attribute, for the pieces, or because there is none of these. -/
theorem decodeSubstrings_refuses (e : Element) : Refuses (decodeSubstrings e) IsContent := by
  refine .members fun members => ?_
  split
  · refine .bind (.lift (Element.asStringTagged_refuses ..)) fun attr =>
      .bind (.lift (Element.asSequenceTagged_refuses ..)) fun parts => ?_
    dsimp only
    split
    · exact .bind (.error trivial) fun _ => .map (decodeParts_refuses ..) _
    · exact .map (decodeParts_refuses ..) _
  · exact .error trivial

/-- A part of an extensible match has one of four tags; the value may be any bytes. -/
theorem decodeExtensiblePart_refuses (parts : ExtensibleParts) (e : Element) :
    Refuses (decodeExtensiblePart parts e) IsContent := by
  unfold decodeExtensiblePart
  split
  · exact .map (.lift (e.asStringTagged_refuses _)) _
  split
  · exact .map (.lift (e.asStringTagged_refuses _)) _
  split
  · exact .ok _
  split
  · exact .map (.lift (e.asBooleanTagged_refuses _)) _
  · exact .error trivial

/-- An extensible match is refused for its parts, or because they hold no value, or neither a rule
nor an attribute. -/
theorem decodeExtensible_refuses (e : Element) : Refuses (decodeExtensible e) IsContent := by
  refine .members fun members =>
    .bind (.foldlM decodeExtensiblePart_refuses _ _) fun parts => ?_
  split
  · exact .error trivial
  · dsimp only
    split
    · exact .bind (.error trivial) fun _ => .ok _
    · exact .ok _

/-- An assertion is refused by the reader for its tag, or because no reader has the tag. -/
theorem decodeItem_refuses (e : Element) : Refuses (decodeItem e) IsContent := by
  unfold decodeItem
  iterate 4
    split
    · exact decodeCompare_refuses ..
  split
  · exact .map (.lift (e.asStringTagged_refuses _)) _
  split
  · exact decodeSubstrings_refuses e
  split
  · exact decodeExtensible_refuses e
  · exact .error trivial

/-- A filter is refused for the filters in it, and when these are too deep. The induction is on the
room that is left for them. -/
theorem decodeWithin_refuses (room : Nat) (e : Element) :
    Refuses (decodeWithin room e) IsContent := by
  induction room generalizing e with
  | zero => exact .error trivial
  | succ room ih =>
    unfold decodeWithin
    split
    · exact .bind (.lift (e.asSequenceTagged_refuses _)) fun _ => .map (.mapM ih _) _
    split
    · exact .bind (.lift (e.asSequenceTagged_refuses _)) fun _ => .map (.mapM ih _) _
    split
    · refine .members fun members => ?_
      split
      · exact .map (ih _) _
      · exact .error trivial
    · exact .map (decodeItem_refuses e) _

end Filter

/-! ## Controls -/

namespace Control

/-- Behind the marker of a control there may be one octet string and no more. -/
theorem decodeValue_refuses (oid : String) (critical : Bool) (es : List Element) :
    Refuses (decodeTail.decodeValue oid critical es) IsContent := by
  unfold decodeTail.decodeValue
  split
  · exact .ok _
  split
  · split
    · exact .ok _
    · exact .error trivial
  · exact .error trivial

/-- The marker may be missing, so a member that is no marker is read as the value. -/
theorem decodeTail_refuses (oid : String) (es : List Element) :
    Refuses (decodeTail oid es) IsContent := by
  unfold decodeTail
  split
  · exact .ok _
  split
  · exact .bind (.lift (Element.asBooleanTagged_refuses ..)) fun _ => decodeValue_refuses ..
  · exact decodeValue_refuses ..

/-- A control is refused for its identifier or for what stands behind it. -/
theorem decode_refuses (e : Element) : Refuses (decode e) IsContent := by
  refine .members fun members => ?_
  split
  · exact .bind (.lift (Element.asStringTagged_refuses ..)) fun _ => decodeTail_refuses ..
  · exact .error trivial

theorem decodeAll_refuses (e : Element) : Refuses (decodeAll e) IsContent :=
  .bind (.lift (e.asSequenceTagged_refuses _)) fun _ => .mapM decode_refuses _

end Control

/-! ## What a search finds -/

theorem stringsOf_refuses (es : List Element) : Refuses (stringsOf es) IsContent :=
  .mapM (fun e => .lift (e.asStringTagged_refuses _)) es

/-- An attribute is refused for its name, for the set of its values, or for a value that is no octet
string. -/
theorem Attribute.decode_refuses (e : Element) : Refuses (decode e) IsContent := by
  refine .members fun members => ?_
  split
  · exact .bind (.lift (Element.asStringTagged_refuses ..)) fun _ =>
      .bind (.lift (Element.asSet_refuses _)) fun _ =>
        .map (.mapM (fun v => .lift (v.asOctetsTagged_refuses _)) _) _
  · exact .error trivial

/-- Any number will do for the way of the change, as long as it is read as one. -/
theorem Modification.decode_refuses (e : Element) : Refuses (decode e) IsContent := by
  refine .members fun members => ?_
  split
  · exact .bind (.lift (Element.asEnumeratedTagged_refuses ..)) fun _ =>
      .map (Attribute.decode_refuses _) _
  · exact .error trivial

/-- A name and a list of members are refused for their content. -/
theorem named_list_refuses {α β : Type} {read : Element → Except ProtocolError β}
    (hread : ∀ e, Refuses (read e) IsContent) (x y : Element) (make : String → List β → α) :
    Refuses (do
      let n ← x.asString
      let es ← y.asSequence
      let bs ← es.mapM read
      return make n bs : Except ProtocolError α) IsContent :=
  .bind (.lift (x.asStringTagged_refuses _)) fun _ =>
    .bind (.lift (y.asSequenceTagged_refuses _)) fun _ => .map (.mapM hread _) _

/-- An entry has two members, a name and a list of attributes. -/
theorem Entry.ofMembers_refuses (es : List Element) : Refuses (ofMembers es) IsContent := by
  refine .bind (checkCount_refuses ..) fun _ => ?_
  split
  · exact named_list_refuses Attribute.decode_refuses _ _ _
  · exact .error trivial

theorem Entry.decode_refuses (e : Element) : Refuses (decode e) IsContent :=
  .bind (.lift (e.asSequenceTagged_refuses _)) fun _ => ofMembers_refuses _

/-- A reference has one member at least, and all of them are texts. -/
theorem Reference.decode_refuses (e : Element) : Refuses (decode e) IsContent :=
  .members fun _ => .map (stringsOf_refuses _) _

/-! ## Requests -/

/-- Credentials are told by their tag: a password is any bytes, a mechanism is a text that octets
may follow. -/
theorem BindRequest.decodeCredentials_refuses (e : Element) :
    Refuses (decodeCredentials e) IsContent := by
  unfold decodeCredentials
  split
  · exact .ok _
  split
  · refine .members fun members => ?_
    split
    · exact .map (.lift (Element.asStringTagged_refuses ..)) _
    · exact .bind (.lift (Element.asStringTagged_refuses ..)) fun _ =>
        .map (.lift (Element.asOctetsTagged_refuses ..)) _
    · exact .error trivial
  · exact .error trivial

/-- A bind request is refused for the credentials first, and only then for the version and the name
that stand before them. -/
theorem BindRequest.decode_refuses (e : Element) : Refuses (decode e) IsContent := by
  refine .members fun members => ?_
  split
  · exact .bind (decodeCredentials_refuses _) fun _ =>
      .bind (.lift (Element.asInt32Tagged_refuses ..)) fun _ =>
        .map (.lift (Element.asStringTagged_refuses ..)) _
  · exact .error trivial

/-- A search is refused for one of its eight members. Numbers are taken as they are, whatever scope
or policy they stand for. -/
theorem SearchRequest.decode_refuses (e : Element) : Refuses (decode e) IsContent := by
  refine .members fun members => ?_
  split
  · refine .bind (.lift (Element.asStringTagged_refuses ..)) fun _ =>
      .bind (.lift (Element.asEnumeratedTagged_refuses ..)) fun _ =>
        .bind (.lift (Element.asEnumeratedTagged_refuses ..)) fun _ => ?_
    refine .bind (.lift (Element.asInt32Tagged_refuses ..)) fun _ =>
      .bind (.lift (Element.asInt32Tagged_refuses ..)) fun _ =>
        .bind (.lift (Element.asBooleanTagged_refuses ..)) fun _ => ?_
    exact .bind (Filter.decodeWithin_refuses ..) fun _ =>
      .bind (.lift (Element.asSequenceTagged_refuses ..)) fun _ => .map (stringsOf_refuses _) _
  · exact .error trivial

theorem ModifyRequest.decode_refuses (e : Element) : Refuses (decode e) IsContent := by
  refine .members fun members => ?_
  split
  · exact named_list_refuses Modification.decode_refuses _ _ _
  · exact .error trivial

theorem AddRequest.decode_refuses (e : Element) : Refuses (decode e) IsContent := by
  refine .members fun members => ?_
  split
  · exact named_list_refuses Attribute.decode_refuses _ _ _
  · exact .error trivial

/-- A deletion is its name and nothing else. -/
theorem DeleteRequest.decode_refuses (e : Element) : Refuses (decode e) IsContent :=
  .map (.lift (e.asStringTagged_refuses _)) _

/-- The new superior of a name may be missing; if it is there, it is a text under its own tag. -/
theorem ModifyDnRequest.decode_refuses (e : Element) : Refuses (decode e) IsContent := by
  refine .members fun members => ?_
  split
  · exact .bind (.lift (Element.asStringTagged_refuses ..)) fun _ =>
      .bind (.lift (Element.asStringTagged_refuses ..)) fun _ =>
        .map (.lift (Element.asBooleanTagged_refuses ..)) _
  · exact .bind (.lift (Element.asStringTagged_refuses ..)) fun _ =>
      .bind (.lift (Element.asStringTagged_refuses ..)) fun _ =>
        .bind (.lift (Element.asBooleanTagged_refuses ..)) fun _ =>
          .map (.lift (Element.asStringTagged_refuses ..)) _
  · exact .error trivial

/-- A comparison is a name and an assertion, which has two members itself. -/
theorem CompareRequest.decode_refuses (e : Element) : Refuses (decode e) IsContent := by
  refine .members fun members => ?_
  split
  · refine .members fun parts => ?_
    split
    · exact .bind (.lift (Element.asStringTagged_refuses ..)) fun _ =>
        .bind (.lift (Element.asStringTagged_refuses ..)) fun _ =>
          .map (.lift (Element.asOctetsTagged_refuses ..)) _
    · exact .error trivial
  · exact .error trivial

/-- An abandonment is refused for its tag and number, and for a number below zero. -/
theorem AbandonRequest.decode_refuses (e : Element) : Refuses (decode e) IsContent := by
  refine .bind (.lift (e.asInt32Tagged_refuses _)) fun target => ?_
  dsimp only
  split
  · exact .bind (.error trivial) fun _ => .ok _
  · exact .ok _

/-- An extended request is refused for its name, or for a value that is under another tag. -/
theorem ExtendedRequest.decode_refuses (e : Element) : Refuses (decode e) IsContent := by
  refine .members fun members => ?_
  split
  · exact .map (.lift (Element.asStringTagged_refuses ..)) _
  · exact .bind (.lift (Element.asStringTagged_refuses ..)) fun _ =>
      .map (.lift (Element.asOctetsTagged_refuses ..)) _
  · exact .error trivial

/-! ## Responses -/

namespace Response

/-- All responses begin with a result code and two texts, and are refused for these alike. -/
theorem decodeHead_refuses (context : String) (es : List Element) :
    Refuses (decodeHead context es) IsContent := by
  unfold decodeHead
  split
  · exact .bind (.lift (Element.asEnumeratedTagged_refuses ..)) fun _ =>
      .bind (.lift (Element.asStringTagged_refuses ..)) fun _ =>
        .map (.lift (Element.asStringTagged_refuses ..)) _
  · exact .error trivial

theorem decodeReferrals_refuses (e : Element) : Refuses (decodeReferrals e) IsContent :=
  .bind (.lift (e.asSequenceTagged_refuses _)) fun _ => stringsOf_refuses _

/-- A response without members of its own may still carry referrals, and nothing else. -/
theorem decode_refuses (e : Element) (tag : Tag) : Refuses (decode e tag) IsContent := by
  refine .members fun members => .bind (decodeHead_refuses ..) fun head => ?_
  rcases head with ⟨r, _ | ⟨referrals, rest⟩⟩
  · exact .ok _
  · dsimp only
    split
    · exact .map (decodeReferrals_refuses _) _
    · exact .error trivial

end Response

/-- The credentials of the server are any bytes, so only the referrals and a tag that is neither can
be found fault with. -/
theorem BindResponse.decode_refuses (e : Element) : Refuses (decode e) IsContent := by
  refine .members fun members => .bind (Response.decodeHead_refuses ..) fun head =>
    .foldlM (fun r x => ?_) _ _
  unfold decodeOptional
  split
  · exact .map (Response.decodeReferrals_refuses x) _
  split
  · exact .ok _
  · exact .error trivial

theorem ExtendedResponse.decode_refuses (e : Element) : Refuses (decode e) IsContent := by
  refine .members fun members => .bind (Response.decodeHead_refuses ..) fun head =>
    .foldlM (fun r x => ?_) _ _
  unfold decodeOptional
  split
  · exact .map (Response.decodeReferrals_refuses x) _
  split
  · exact .map (.lift (x.asStringTagged_refuses _)) _
  split
  · exact .ok _
  · exact .error trivial

/-- An intermediate response may be empty; what it holds is a name or a value. -/
theorem IntermediateResponse.decode_refuses (e : Element) : Refuses (decode e) IsContent := by
  refine .members fun members => .foldlM (fun r x => ?_) _ _
  unfold decodeOptional
  split
  · exact .map (.lift (x.asStringTagged_refuses _)) _
  split
  · exact .ok _
  · exact .error trivial

/-! ## Operations -/

/-- Whatever operation an element is read as, it is refused for its content. -/
theorem Operation.decode_refuses (e : Element) : Refuses (decode e) IsContent := by
  -- one reader after the other is asked whether the tag is its own
  have hbranch {c : Prop} [Decidable c] {x y : Except ProtocolError Operation}
      (hx : Refuses x IsContent) (hy : Refuses y IsContent) :
      Refuses (if c then x else y) IsContent := by
    split
    · exact hx
    · exact hy
  refine hbranch (.map (BindRequest.decode_refuses e) _) <|
    hbranch (.map (BindResponse.decode_refuses e) _) <|
    hbranch (.map (.lift (e.asNullTagged_refuses _)) _) <|
    hbranch (.map (SearchRequest.decode_refuses e) _) <|
    hbranch (.map (Entry.decode_refuses e) _) <|
    hbranch (.map (Reference.decode_refuses e) _) <|
    hbranch (.map (ModifyRequest.decode_refuses e) _) <|
    hbranch (.map (AddRequest.decode_refuses e) _) <|
    hbranch (.map (DeleteRequest.decode_refuses e) _) <|
    hbranch (.map (ModifyDnRequest.decode_refuses e) _) <|
    hbranch (.map (CompareRequest.decode_refuses e) _) <|
    hbranch (.map (AbandonRequest.decode_refuses e) _) <|
    hbranch (.map (ExtendedRequest.decode_refuses e) _) <|
    hbranch (.map (ExtendedResponse.decode_refuses e) _) <|
    hbranch (.map (IntermediateResponse.decode_refuses e) _) ?_
  split
  · exact .map (Response.decode_refuses e _) _
  · exact .error trivial

end Ldap
