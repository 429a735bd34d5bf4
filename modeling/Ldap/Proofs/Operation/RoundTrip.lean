import Ldap.Operation.Basic
import Ldap.Proofs.Operation.Request
import Ldap.Proofs.Operation.Response

/-!
# Which operations survive the wire

`decode_encode_eq_ok_iff` tells exactly which operations are read back from what they are written
as. What is lost on the wire is little: texts of a response that are there but empty, references to
no place, abandonments of negative identifiers, and searches with a filter that no reader accepts.
-/

namespace Ldap

open Ber (Element Tag)

namespace Operation

/-- An operation that a reader can be told of. -/
def Expressible : Operation → Prop
  | searchRequest r =>
    r.filter.depth ≤ Filter.maxDepth ∧ ∀ i ∈ r.filter.items, i.Expressible
  | reference r => r.urls ≠ []
  | abandonRequest r => 0 ≤ r.target
  | bindResponse r => r.response.Expressible
  | extendedResponse r => r.response.Expressible
  | done _ r => r.Expressible
  | _ => True

/-- The elements that an operation is read from. -/
def Spells (e : Element) : Operation → Prop
  | bindRequest r => BindRequest.decode e = .ok r
  | bindResponse r => BindResponse.decode e = .ok r
  | unbindRequest => e = ⟨unbindTag, []⟩
  | searchRequest r => SearchRequest.decode e = .ok r
  | entry r => Entry.decode e = .ok r
  | reference r => Reference.decode e = .ok r
  | modifyRequest r => ModifyRequest.decode e = .ok r
  | addRequest r => AddRequest.decode e = .ok r
  | deleteRequest r => DeleteRequest.decode e = .ok r
  | modifyDnRequest r => ModifyDnRequest.decode e = .ok r
  | compareRequest r => CompareRequest.decode e = .ok r
  | abandonRequest r => AbandonRequest.decode e = .ok r
  | extendedRequest r => ExtendedRequest.decode e = .ok r
  | extendedResponse r => ExtendedResponse.decode e = .ok r
  | intermediateResponse r => IntermediateResponse.decode e = .ok r
  | done kind r => Response.decode e kind.tag = .ok r

/-- Every reader accepts its own tag only. -/
theorem Spells.tag_eq {e : Element} {op : Operation} (h : Spells e op) : e.tag = op.tag := by
  cases op with
  | bindRequest r =>
    rcases BindRequest.decode_eq_ok_iff.1 h with ⟨_, _, _, hes, -⟩
    exact hes.tag_eq
  | bindResponse r =>
    rcases BindResponse.decode_eq_ok_iff.1 h with ⟨_, _, _, _, _, hes, -⟩
    exact hes.tag_eq
  | unbindRequest => rw [show e = ⟨unbindTag, []⟩ from h, tag]
  | searchRequest r =>
    rcases SearchRequest.decode_eq_ok_iff.1 h with ⟨_, _, _, _, _, _, _, _, hes, -⟩
    exact hes.tag_eq
  | entry r =>
    rcases Entry.decode_eq_ok_iff.1 h with ⟨_, _, hes, -⟩
    exact hes.tag_eq
  | reference r =>
    rcases Reference.decode_eq_ok_iff.1 h with ⟨-, _, hes, -⟩
    exact hes.tag_eq
  | modifyRequest r =>
    rcases ModifyRequest.decode_eq_ok_iff.1 h with ⟨_, _, hes, -⟩
    exact hes.tag_eq
  | addRequest r =>
    rcases AddRequest.decode_eq_ok_iff.1 h with ⟨_, _, hes, -⟩
    exact hes.tag_eq
  | deleteRequest r =>
    rw [Element.asStringTagged_eq_ok_iff.1 (DeleteRequest.decode_eq_ok_iff.1 h)]
    rfl
  | modifyDnRequest r =>
    rcases ModifyDnRequest.decode_eq_ok_iff.1 h with ⟨_, _, _, _, hes, -⟩
    exact hes.tag_eq
  | compareRequest r =>
    rcases CompareRequest.decode_eq_ok_iff.1 h with ⟨_, _, hes, -⟩
    exact hes.tag_eq
  | abandonRequest r =>
    exact (Element.asInt32Tagged_eq_ok_iff.1 (AbandonRequest.decode_eq_ok_iff.1 h).2).1
  | extendedRequest r =>
    rcases ExtendedRequest.decode_eq_ok_iff.1 h with ⟨_, _, hes, -⟩
    exact hes.tag_eq
  | extendedResponse r =>
    rcases ExtendedResponse.decode_eq_ok_iff.1 h with ⟨_, _, _, _, _, hes, -⟩
    exact hes.tag_eq
  | intermediateResponse r =>
    rcases IntermediateResponse.decode_eq_ok_iff.1 h with ⟨_, hes, -⟩
    exact hes.tag_eq
  | done kind r =>
    rcases Response.decode_eq_ok_iff.1 h with ⟨_, _, _, _, hes, -⟩
    exact hes.tag_eq

/-- One reader after the other is asked whether the tag is its own. -/
theorem spells_of_decodeTagged {t : Tag} {e : Element} {op : Operation}
    (h : decodeTagged t e = .ok op) : Spells e op := by
  -- what a reader accepts is made an operation of its type
  have htake {α : Type} {x : Except ProtocolError α} {make : α → Operation}
      (h : (do return make (← x)) = .ok op) : ∃ a, x = .ok a ∧ make a = op := by
    simpa only [bind_eq_ok_iff, pure_eq_ok_iff] using h
  -- the operation comes from the reader that is asked now, or from a later one
  have hbranch {c : Prop} [Decidable c] {x y : Except ProtocolError Operation}
      (h : (if c then x else y) = .ok op) : x = .ok op ∨ y = .ok op := by
    by_cases hc : c
    · exact .inl (by rwa [if_pos hc] at h)
    · exact .inr (by rwa [if_neg hc] at h)
  rcases hbranch h with h | h
  · obtain ⟨r, hr, rfl⟩ := htake h
    exact hr
  rcases hbranch h with h | h
  · obtain ⟨r, hr, rfl⟩ := htake h
    exact hr
  rcases hbranch h with h | h
  · rcases bind_eq_ok_iff.1 h with ⟨u, hu, h⟩
    obtain rfl := pure_eq_ok_iff.1 h
    exact Element.asNullTagged_eq_ok_iff.1 (liftM_eq_ok_iff.1 hu)
  iterate 12
    rcases hbranch h with h | h
    · obtain ⟨r, hr, rfl⟩ := htake h
      exact hr
  split at h
  · obtain ⟨r, hr, rfl⟩ := htake h
    exact hr
  · cases h

theorem decode_eq_ok_iff {e : Element} {op : Operation} : decode e = .ok op ↔ Spells e op := by
  constructor
  · exact spells_of_decodeTagged
  · intro h
    unfold decode
    -- the tag leads to the reader that accepts the element
    rw [h.tag_eq]
    cases op with
    | unbindRequest =>
      have hnull := liftM_eq_ok_iff.2 (Element.asNullTagged_eq_ok_iff.2 h)
      exact bind_eq_ok_iff.2 ⟨(), hnull, rfl⟩
    | done kind r => cases kind <;> exact bind_eq_ok_iff.2 ⟨r, h, rfl⟩
    | _ r => exact bind_eq_ok_iff.2 ⟨r, h, rfl⟩

/-- Every type of operation is faithful, as far as a reader can be told of it. -/
theorem faithful : Faithful encode (fun e op => decode e = .ok op) Expressible where
  reads {op} hgood h := by
    apply decode_eq_ok_iff.2
    cases op with
    | bindRequest r => exact BindRequest.faithful.reads trivial h
    | bindResponse r => exact BindResponse.faithful.reads hgood h
    | unbindRequest => rfl
    | searchRequest r =>
      exact SearchRequest.faithful.reads ⟨Nat.lt_succ_of_le hgood.1, hgood.2⟩ h
    | entry r => exact Entry.faithful.reads trivial h
    | reference r => exact Reference.faithful.reads hgood h
    | modifyRequest r => exact ModifyRequest.faithful.reads trivial h
    | addRequest r => exact AddRequest.faithful.reads trivial h
    | deleteRequest r => exact DeleteRequest.faithful.reads trivial h
    | modifyDnRequest r => exact ModifyDnRequest.faithful.reads trivial h
    | compareRequest r => exact CompareRequest.faithful.reads trivial h
    | abandonRequest r => exact AbandonRequest.faithful.reads hgood h
    | extendedRequest r => exact ExtendedRequest.faithful.reads trivial h
    | extendedResponse r => exact ExtendedResponse.faithful.reads hgood h
    | intermediateResponse r => exact IntermediateResponse.faithful.reads trivial h
    | done kind r => exact (Response.faithful kind.tag).reads hgood h
  good {e op} h := by
    replace h := decode_eq_ok_iff.1 h
    cases op with
    | searchRequest r =>
      have hfilter := SearchRequest.faithful.good h
      exact ⟨Nat.le_of_lt_succ hfilter.1, hfilter.2⟩
    | reference r => exact Reference.faithful.good h
    | abandonRequest r => exact AbandonRequest.faithful.good h
    | bindResponse r => exact BindResponse.faithful.good h
    | extendedResponse r => exact ExtendedResponse.faithful.good h
    | done kind r => exact (Response.faithful kind.tag).good h
    | _ => trivial
  shrinks {e op} h := by
    replace h := decode_eq_ok_iff.1 h
    cases op with
    | bindRequest r => exact BindRequest.faithful.shrinks h
    | bindResponse r => exact BindResponse.faithful.shrinks h
    | unbindRequest => rw [show e = ⟨unbindTag, []⟩ from h, encode]
    | searchRequest r => exact SearchRequest.faithful.shrinks h
    | entry r => exact Entry.faithful.shrinks h
    | reference r => exact Reference.faithful.shrinks h
    | modifyRequest r => exact ModifyRequest.faithful.shrinks h
    | addRequest r => exact AddRequest.faithful.shrinks h
    | deleteRequest r => exact DeleteRequest.faithful.shrinks h
    | modifyDnRequest r => exact ModifyDnRequest.faithful.shrinks h
    | compareRequest r => exact CompareRequest.faithful.shrinks h
    | abandonRequest r => exact AbandonRequest.faithful.shrinks h
    | extendedRequest r => exact ExtendedRequest.faithful.shrinks h
    | extendedResponse r => exact ExtendedResponse.faithful.shrinks h
    | intermediateResponse r => exact IntermediateResponse.faithful.shrinks h
    | done kind r => exact (Response.faithful kind.tag).shrinks h

/-- An operation that takes less than four gigabytes is read back from what it is written as exactly
if it is expressible. -/
theorem decode_encode_eq_ok_iff (op : Operation) (h : op.encode.encode.length < 2 ^ 32) :
    decode op.encode = .ok op ↔ op.Expressible :=
  ⟨fun hread => faithful.good hread,
    fun hgood => faithful.reads hgood (Element.short_of_length_lt h)⟩

/-- A search for everything but the people below a name survives the wire; an empty list of places
where a search may go on does not. -/
theorem decode_encode_search_and_empty_reference :
    let search : Operation := .searchRequest
      ⟨"dc=x", .sub, 0, 0, 0, false,
        .not (.and [.item (.compare .equal "objectClass" [0x61]), .item (.present "sn")]), ["cn"]⟩
    let nowhere : Operation := .reference ⟨[]⟩
    search.encode.encode.length < 2 ^ 32 ∧ decode search.encode = .ok search ∧
      nowhere.encode.encode.length < 2 ^ 32 ∧ decode nowhere.encode ≠ .ok nowhere := by
  intro search nowhere
  have hsearch : search.encode.encode.length < 2 ^ 32 := by decide +kernel
  have hnowhere : nowhere.encode.encode.length < 2 ^ 32 := by decide +kernel
  refine ⟨hsearch, (decode_encode_eq_ok_iff search hsearch).2 ⟨?_, ?_⟩, hnowhere, fun h => ?_⟩
  · show Filter.depth _ ≤ Filter.maxDepth
    decide +kernel
  · intro i hi
    rcases (by simpa [search, Filter.items, Filter.itemsOfAll] using hi :
      i = .compare .equal "objectClass" [0x61] ∨ i = .present "sn") with rfl | rfl
    · trivial
    · trivial
  · exact absurd rfl ((decode_encode_eq_ok_iff nowhere hnowhere).1 h)

end Operation
end Ldap
