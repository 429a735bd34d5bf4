import Ldap.Operation.Request
import Ldap.Proofs.Filter.Wire
import Ldap.Proofs.Operation.Entry

/-!
# Requests on the wire

Every request is read back from the element it is written as, except a search whose filter cannot be
read and an abandonment of a negative identifier.
-/

namespace Ldap

open Ber (Element Tag)

/-! ## Bind -/

namespace BindRequest

/-- The elements that credentials are read from. -/
def SpellsCredentials (e : Element) : Credentials → Prop
  | .simple password => e = ⟨simpleTag, password⟩
  | .sasl mechanism credentials =>
    ∃ x ys, e.Holds saslTag (x :: ys) ∧ x.asString = .ok mechanism ∧
      List.Forall₂ (fun y bytes => y.asOctets = .ok bytes) ys credentials.toList

/-- Credentials are read exactly from the elements that spell them. -/
theorem decodeCredentials_eq_ok_iff {e : Element} {c : Credentials} :
    decodeCredentials e = .ok c ↔ SpellsCredentials e c := by
  constructor
  · intro h
    unfold decodeCredentials at h
    split at h
    · next htag =>
      obtain rfl := pure_eq_ok_iff.1 h
      rcases e with ⟨tag, content⟩
      obtain rfl : tag = simpleTag := htag
      rfl
    split at h
    · simp only [bind_eq_ok_iff, liftM_eq_ok_iff, Element.asSequenceTagged_eq_ok_iff] at h
      rcases h with ⟨es, hes, -, -, h⟩
      split at h
      · simp only [bind_eq_ok_iff, liftM_eq_ok_iff, pure_eq_ok_iff] at h
        rcases h with ⟨mechanism, hx, rfl⟩
        exact ⟨_, [], hes, hx, .nil⟩
      · simp only [bind_eq_ok_iff, liftM_eq_ok_iff, pure_eq_ok_iff] at h
        rcases h with ⟨mechanism, hx, credentials, hy, rfl⟩
        exact ⟨_, _, hes, hx, .cons hy .nil⟩
      · cases h
    · cases h
  · intro h
    unfold decodeCredentials
    cases c with
    | simple password =>
      obtain rfl : e = ⟨simpleTag, password⟩ := h
      rfl
    | sasl mechanism credentials =>
      rcases h with ⟨x, ys, hes, hx, hys⟩
      rw [hes.tag_eq, if_neg (by decide), if_pos rfl]
      simp only [bind_eq_ok_iff, liftM_eq_ok_iff, Element.asSequenceTagged_eq_ok_iff,
        checkCount_eq_ok_iff]
      -- one member or two, as there are credentials or none
      cases credentials with
      | none =>
        obtain rfl := forall₂_toList_none_iff.1 hys
        refine ⟨_, hes, (), by simp, ?_⟩
        simp only [bind_eq_ok_iff, liftM_eq_ok_iff, pure_eq_ok_iff]
        exact ⟨_, hx, rfl⟩
      | some bytes =>
        rcases forall₂_toList_some_iff.1 hys with ⟨y, rfl, hy⟩
        refine ⟨_, hes, (), by simp, ?_⟩
        simp only [bind_eq_ok_iff, liftM_eq_ok_iff, pure_eq_ok_iff]
        exact ⟨_, hx, _, hy, rfl⟩

/-- A mechanism and what it may need are faithful. -/
theorem faithful_sasl :
    Faithful (fun p : String × Option (List UInt8) => encodeCredentials (.sasl p.1 p.2))
      (fun e p => SpellsCredentials e (.sasl p.1 p.2)) fun _ => True :=
  (Faithful.headed (f := Prod.fst) (g := Prod.snd) .string .octets (fun _ => rfl)
    fun _ _ => Iff.rfl).of_iff (by simp)

/-- Both kinds of credentials are read back, a mechanism with or without what goes with it. -/
theorem faithful_credentials :
    Faithful encodeCredentials (fun e c => decodeCredentials e = .ok c) fun _ => True where
  reads {c} _ hshort := by
    apply decodeCredentials_eq_ok_iff.2
    cases c with
    | simple password => rfl
    | sasl mechanism credentials =>
      exact faithful_sasl.reads (a := (mechanism, credentials)) trivial hshort
  good _ := trivial
  shrinks {e c} h := by
    replace h := decodeCredentials_eq_ok_iff.1 h
    cases c with
    | simple password => rw [show e = ⟨simpleTag, password⟩ from h, encodeCredentials]
    | sasl mechanism credentials =>
      exact faithful_sasl.shrinks (a := (mechanism, credentials)) h

/-- A bind request has three members. The version may be any number of 32 bits. -/
theorem decode_eq_ok_iff {e : Element} {r : BindRequest} :
    decode e = .ok r ↔
      ∃ version name credentials, e.Holds tag [version, name, credentials] ∧
        version.asInt32 = .ok r.version ∧ name.asString = .ok r.name ∧
        decodeCredentials credentials = .ok r.credentials := by
  unfold decode
  simp only [bind_eq_ok_iff, liftM_eq_ok_iff, Element.asSequenceTagged_eq_ok_iff,
    checkCount_eq_ok_iff]
  constructor
  · intro h
    rcases h with ⟨es, hes, -, -, h⟩
    split at h
    · simp only [bind_eq_ok_iff, liftM_eq_ok_iff, pure_eq_ok_iff] at h
      -- the credentials are read first, which makes no difference for what is accepted
      rcases h with ⟨credentials, hcredentials, version, hversion, name, hname, rfl⟩
      exact ⟨_, _, _, hes, hversion, hname, hcredentials⟩
    · cases h
  · intro h
    rcases h with ⟨x, y, z, hes, hversion, hname, hcredentials⟩
    refine ⟨_, hes, (), by simp, ?_⟩
    simp only [bind_eq_ok_iff, liftM_eq_ok_iff, pure_eq_ok_iff]
    exact ⟨_, hcredentials, _, hversion, _, hname, rfl⟩

theorem faithful : Faithful encode (fun e r => decode e = .ok r) fun _ => True where
  reads {r} _ h := decode_eq_ok_iff.2 ⟨_, _, _, Element.holds_constructed h,
    Faithful.int32.reads trivial (h.member (by simp)),
    Faithful.string.reads trivial (h.member (by simp)),
    faithful_credentials.reads trivial (h.member (by simp))⟩
  good _ := trivial
  shrinks {e r} h := by
    rcases decode_eq_ok_iff.1 h with ⟨x, y, z, hes, hversion, hname, hcredentials⟩
    have hlex := Faithful.int32.shrinks hversion
    have hley := Faithful.string.shrinks hname
    have hlez := faithful_credentials.shrinks hcredentials
    apply hes.constructed_le tag
    simp only [Element.size_cons, Element.size_nil]
    exact Nat.add_le_add hlex (Nat.add_le_add hley (Nat.add_le_add_right hlez 0))

end BindRequest

/-! ## Search -/

namespace SearchRequest

/-- The members that a search request is read from. -/
structure Members (r : SearchRequest) (base scope deref sizeLimit timeLimit typesOnly filter
    attributes : Element) : Prop where
  base : base.asString = .ok r.base
  scope : scope.asEnumerated = .ok r.scope.value
  deref : deref.asEnumerated = .ok r.deref
  sizeLimit : sizeLimit.asInt32 = .ok r.sizeLimit
  timeLimit : timeLimit.asInt32 = .ok r.timeLimit
  typesOnly : typesOnly.asBoolean = .ok r.typesOnly
  filter : Filter.decode filter = .ok r.filter
  attributes : Lists (fun x s => x.asString = .ok s) .sequence attributes r.attributes

/-- A search request is read if each of its eight members is. -/
theorem decode_eq_ok_iff {e : Element} {r : SearchRequest} :
    decode e = .ok r ↔
      ∃ base scope deref sizeLimit timeLimit typesOnly filter attributes,
        e.Holds tag [base, scope, deref, sizeLimit, timeLimit, typesOnly, filter, attributes] ∧
        r.Members base scope deref sizeLimit timeLimit typesOnly filter attributes := by
  unfold decode
  simp only [bind_eq_ok_iff, liftM_eq_ok_iff, Element.asSequenceTagged_eq_ok_iff,
    checkCount_eq_ok_iff]
  constructor
  · intro h
    rcases h with ⟨es, hes, -, -, h⟩
    split at h
    · simp only [bind_eq_ok_iff, liftM_eq_ok_iff, stringsOf_eq_ok_iff, pure_eq_ok_iff] at h
      obtain ⟨_, hbase, _, hscope, _, hderef, _, hsize, _, htime, _, htypes, _, hfilter, as, has,
        _, hattributes, rfl⟩ := h
      exact ⟨_, _, _, _, _, _, _, _, hes, hbase, hscope, hderef, hsize, htime, htypes, hfilter,
        as, Element.asSequenceTagged_eq_ok_iff.1 has, hattributes⟩
    · cases h
  · intro h
    rcases h with ⟨_, _, _, _, _, _, _, _, hes, h⟩
    refine ⟨_, hes, (), by simp, ?_⟩
    simp only [bind_eq_ok_iff, liftM_eq_ok_iff, stringsOf_eq_ok_iff, pure_eq_ok_iff]
    -- the selection is split into its members before they are read as texts
    rcases h.attributes with ⟨as, has, hattributes⟩
    exact ⟨_, h.base, _, h.scope, _, h.deref, _, h.sizeLimit, _, h.timeLimit, _, h.typesOnly, _,
      h.filter, as, Element.asSequenceTagged_eq_ok_iff.2 has, _, hattributes, rfl⟩

/-- A search request is read back if its filter is: all other members may have any value. -/
theorem faithful :
    Faithful encode (fun e r => decode e = .ok r) fun r => r.filter.Encodable where
  reads {r} hgood h := decode_eq_ok_iff.2 ⟨_, _, _, _, _, _, _, _, Element.holds_constructed h, {
    base := Faithful.string.reads trivial (h.member (by simp))
    scope := Faithful.enumerated.reads trivial (h.member (by simp))
    deref := Faithful.enumerated.reads trivial (h.member (by simp))
    sizeLimit := Faithful.int32.reads trivial (h.member (by simp))
    timeLimit := Faithful.int32.reads trivial (h.member (by simp))
    typesOnly := Faithful.boolean.reads trivial (h.member (by simp))
    filter := Filter.faithful.reads hgood (h.member (by simp))
    attributes := (Faithful.string.lists .sequence).reads (fun _ _ => trivial)
      (h.member (e := .sequence (r.attributes.map .string)) (by simp)) }⟩
  good h := by
    rcases decode_eq_ok_iff.1 h with ⟨_, _, _, _, _, _, _, _, -, h⟩
    exact Filter.faithful.good h.filter
  shrinks {e r} h := by
    rcases decode_eq_ok_iff.1 h with ⟨_, _, _, _, _, _, _, _, hes, h⟩
    have hbase := Faithful.string.shrinks h.base
    have hscope := Faithful.enumerated.shrinks h.scope
    have hderef := Faithful.enumerated.shrinks h.deref
    have hsize := Faithful.int32.shrinks h.sizeLimit
    have htime := Faithful.int32.shrinks h.timeLimit
    have htypes := Faithful.boolean.shrinks h.typesOnly
    have hfilter := Filter.faithful.shrinks h.filter
    have hattributes := (Faithful.string.lists .sequence).shrinks h.attributes
    apply hes.constructed_le tag
    simp only [Element.size_cons, Element.size_nil]
    unfold Element.sequence
    omega

end SearchRequest

/-! ## Updates -/

namespace ModifyRequest

/-- A request for changes is a name and a list of changes. -/
theorem decode_eq_ok_iff {e : Element} {r : ModifyRequest} :
    decode e = .ok r ↔
      ∃ dn changes, e.Holds tag [dn, changes] ∧ dn.asString = .ok r.dn ∧
        Lists (fun x m => Modification.decode x = .ok m) .sequence changes r.changes := by
  refine pair_eq_ok_iff.trans (exists₂_congr fun x y => and_congr_right' ?_)
  exact named_list_eq_ok_iff fun n cs => by cases r; simp

theorem faithful : Faithful encode (fun e r => decode e = .ok r) fun _ => True :=
  (Faithful.pair (f := dn) (g := changes) .string (Modification.faithful.lists .sequence)
    (fun _ => rfl) fun _ _ => decode_eq_ok_iff).of_iff (by simp)

end ModifyRequest

namespace AddRequest

/-- A request to add an entry is written like the entry, under another tag. -/
theorem decode_eq_ok_iff {e : Element} {r : AddRequest} :
    decode e = .ok r ↔
      ∃ dn attributes, e.Holds tag [dn, attributes] ∧ dn.asString = .ok r.dn ∧
        Lists (fun x a => Attribute.decode x = .ok a) .sequence attributes r.attributes := by
  refine pair_eq_ok_iff.trans (exists₂_congr fun x y => and_congr_right' ?_)
  exact named_list_eq_ok_iff fun n cs => by cases r; simp

theorem faithful : Faithful encode (fun e r => decode e = .ok r) fun _ => True :=
  (Faithful.pair (f := dn) (g := attributes) .string (Attribute.faithful.lists .sequence)
    (fun _ => rfl) fun _ _ => decode_eq_ok_iff).of_iff (by simp)

end AddRequest

namespace DeleteRequest

/-- A request to delete an entry has no members; its content is the name. -/
theorem decode_eq_ok_iff {e : Element} {r : DeleteRequest} :
    decode e = .ok r ↔ e.asStringTagged tag = .ok r.dn := by
  unfold decode
  simp only [bind_eq_ok_iff, liftM_eq_ok_iff, pure_eq_ok_iff]
  constructor
  · intro h
    rcases h with ⟨dn, hdn, rfl⟩
    exact hdn
  · intro h
    exact ⟨_, h, rfl⟩

theorem faithful : Faithful encode (fun e r => decode e = .ok r) fun _ => True where
  reads _ h := decode_eq_ok_iff.2 ((Faithful.stringTagged tag).reads trivial h)
  good _ := trivial
  shrinks h := (Faithful.stringTagged tag).shrinks (decode_eq_ok_iff.1 h)

end DeleteRequest

namespace ModifyDnRequest

/-- A request for a new name has three members, and a fourth one if the entry moves. -/
theorem decode_eq_ok_iff {e : Element} {r : ModifyDnRequest} :
    decode e = .ok r ↔
      ∃ dn newRdn deleteOldRdn rest, e.Holds tag (dn :: newRdn :: deleteOldRdn :: rest) ∧
        dn.asString = .ok r.dn ∧ newRdn.asString = .ok r.newRdn ∧
        deleteOldRdn.asBoolean = .ok r.deleteOldRdn ∧
        List.Forall₂ (fun x s => x.asStringTagged superiorTag = .ok s) rest
          r.newSuperior.toList := by
  unfold decode
  simp only [bind_eq_ok_iff, liftM_eq_ok_iff, Element.asSequenceTagged_eq_ok_iff,
    checkCount_eq_ok_iff]
  constructor
  · intro h
    rcases h with ⟨es, hes, -, -, h⟩
    split at h
    · simp only [bind_eq_ok_iff, liftM_eq_ok_iff, pure_eq_ok_iff] at h
      rcases h with ⟨_, hdn, _, hrdn, _, hdelete, rfl⟩
      exact ⟨_, _, _, [], hes, hdn, hrdn, hdelete, forall₂_toList_none_iff.2 rfl⟩
    · simp only [bind_eq_ok_iff, liftM_eq_ok_iff, pure_eq_ok_iff] at h
      rcases h with ⟨_, hdn, _, hrdn, _, hdelete, _, hsuperior, rfl⟩
      exact ⟨_, _, _, _, hes, hdn, hrdn, hdelete, forall₂_toList_some_iff.2 ⟨_, rfl, hsuperior⟩⟩
    · cases h
  · rcases r with ⟨dn, newRdn, deleteOldRdn, newSuperior⟩
    intro h
    rcases h with ⟨x, y, z, rest, hes, hdn, hrdn, hdelete, hrest⟩
    -- three members or four, as there is a new superior or none
    cases newSuperior with
    | none =>
      obtain rfl := forall₂_toList_none_iff.1 hrest
      refine ⟨_, hes, (), by simp, ?_⟩
      simp only [bind_eq_ok_iff, liftM_eq_ok_iff, pure_eq_ok_iff]
      exact ⟨_, hdn, _, hrdn, _, hdelete, rfl⟩
    | some superior =>
      rcases forall₂_toList_some_iff.1 hrest with ⟨u, rfl, hsuperior⟩
      refine ⟨_, hes, (), by simp, ?_⟩
      simp only [bind_eq_ok_iff, liftM_eq_ok_iff, pure_eq_ok_iff]
      exact ⟨_, hdn, _, hrdn, _, hdelete, _, hsuperior, rfl⟩

theorem faithful : Faithful encode (fun e r => decode e = .ok r) fun _ => True where
  reads {r} _ h := by
    have hsize := h.size
    rw [Element.size_append] at hsize
    exact decode_eq_ok_iff.2 ⟨_, _, _, _, Element.holds_constructed h,
      Faithful.string.reads trivial (h.member (by simp)),
      Faithful.string.reads trivial (h.member (by simp)),
      Faithful.boolean.reads trivial (h.member (by simp)),
      (Faithful.stringTagged superiorTag).forall₂_map (fun _ _ => trivial) (by omega)⟩
  good _ := trivial
  shrinks {e r} h := by
    rcases decode_eq_ok_iff.1 h with ⟨x, y, z, rest, hes, hdn, hrdn, hdelete, hrest⟩
    have hlex := Faithful.string.shrinks hdn
    have hley := Faithful.string.shrinks hrdn
    have hlez := Faithful.boolean.shrinks hdelete
    have hlerest := (Faithful.stringTagged superiorTag).size_le hrest
    apply hes.constructed_le tag
    simp only [Element.size_append, Element.size_cons, Element.size_nil]
    omega

end ModifyDnRequest

/-! ## Compare -/

namespace CompareRequest

/-- The assertion of a comparison is faithful in its attribute and its value. -/
theorem faithful_assertion :
    Faithful (fun p : String × List UInt8 => .sequence [.string p.1, .octetString p.2])
      (fun e p => ∃ x y, e.Holds .sequence [x, y] ∧ x.asString = .ok p.1 ∧ y.asOctets = .ok p.2)
      fun _ => True :=
  (Faithful.pair (f := Prod.fst) (g := Prod.snd) .string .octets (fun _ => rfl)
    fun _ _ => Iff.rfl).of_iff (by simp)

/-- A comparison holds its assertion as a sequence of its own. -/
theorem decode_eq_ok_iff {e : Element} {r : CompareRequest} :
    decode e = .ok r ↔
      ∃ dn assertion, e.Holds tag [dn, assertion] ∧ dn.asString = .ok r.dn ∧
        ∃ x y, assertion.Holds .sequence [x, y] ∧ x.asString = .ok r.attr ∧
          y.asOctets = .ok r.value := by
  refine pair_eq_ok_iff.trans (exists₂_congr fun dn assertion => and_congr_right' ?_)
  apply pair_eq_ok_iff.trans
  simp only [bind_eq_ok_iff, liftM_eq_ok_iff, pure_eq_ok_iff]
  constructor
  · intro h
    rcases h with ⟨x, y, hes, _, hdn, _, hattr, _, hvalue, rfl⟩
    exact ⟨hdn, x, y, hes, hattr, hvalue⟩
  · intro h
    rcases h with ⟨hdn, x, y, hes, hattr, hvalue⟩
    exact ⟨x, y, hes, _, hdn, _, hattr, _, hvalue, rfl⟩

theorem faithful : Faithful encode (fun e r => decode e = .ok r) fun _ => True :=
  (Faithful.pair (f := dn) (g := fun r => (r.attr, r.value)) .string faithful_assertion
    (fun _ => rfl) fun _ _ => decode_eq_ok_iff).of_iff (by simp)

end CompareRequest

/-! ## Abandon -/

namespace AbandonRequest

/-- An abandonment is read from a number that is not below zero. -/
theorem decode_eq_ok_iff {e : Element} {r : AbandonRequest} :
    decode e = .ok r ↔ 0 ≤ r.target ∧ e.asInt32Tagged tag = .ok r.target := by
  unfold decode
  simp only [bind_eq_ok_iff, liftM_eq_ok_iff]
  constructor
  · intro h
    rcases h with ⟨target, htarget, h⟩
    split at h
    · cases h
    · next hnot =>
      obtain rfl := pure_eq_ok_iff.1 h
      exact ⟨Int32.not_lt.1 hnot, htarget⟩
  · intro h
    rcases h with ⟨hnonneg, htarget⟩
    refine ⟨_, htarget, ?_⟩
    rw [if_neg (Int32.not_lt.2 hnonneg)]
    rfl

/-- Negative identifiers are written, but not read. -/
theorem faithful : Faithful encode (fun e r => decode e = .ok r) fun r => 0 ≤ r.target where
  reads hgood h := decode_eq_ok_iff.2 ⟨hgood, (Faithful.int32Tagged tag).reads trivial h⟩
  good h := (decode_eq_ok_iff.1 h).1
  shrinks h := (Faithful.int32Tagged tag).shrinks (decode_eq_ok_iff.1 h).2

end AbandonRequest

/-! ## Extended -/

namespace ExtendedRequest

/-- An extended request is its identifier and a value that may be missing. -/
theorem decode_eq_ok_iff {e : Element} {r : ExtendedRequest} :
    decode e = .ok r ↔
      ∃ oid rest, e.Holds tag (oid :: rest) ∧ oid.asStringTagged oidTag = .ok r.oid ∧
        List.Forall₂ (fun x bytes => x.asOctetsTagged valueTag = .ok bytes) rest
          r.value.toList := by
  unfold decode
  simp only [bind_eq_ok_iff, liftM_eq_ok_iff, Element.asSequenceTagged_eq_ok_iff,
    checkCount_eq_ok_iff]
  constructor
  · intro h
    rcases h with ⟨es, hes, -, -, h⟩
    split at h
    · simp only [bind_eq_ok_iff, liftM_eq_ok_iff, pure_eq_ok_iff] at h
      rcases h with ⟨_, hoid, rfl⟩
      exact ⟨_, [], hes, hoid, forall₂_toList_none_iff.2 rfl⟩
    · simp only [bind_eq_ok_iff, liftM_eq_ok_iff, pure_eq_ok_iff] at h
      rcases h with ⟨_, hoid, _, hvalue, rfl⟩
      exact ⟨_, _, hes, hoid, forall₂_toList_some_iff.2 ⟨_, rfl, hvalue⟩⟩
    · cases h
  · rcases r with ⟨oid, value⟩
    intro h
    rcases h with ⟨x, rest, hes, hoid, hrest⟩
    -- one member or two, as there is a value or none
    cases value with
    | none =>
      obtain rfl := forall₂_toList_none_iff.1 hrest
      refine ⟨_, hes, (), by simp, ?_⟩
      simp only [bind_eq_ok_iff, liftM_eq_ok_iff, pure_eq_ok_iff]
      exact ⟨_, hoid, rfl⟩
    | some bytes =>
      rcases forall₂_toList_some_iff.1 hrest with ⟨y, rfl, hvalue⟩
      refine ⟨_, hes, (), by simp, ?_⟩
      simp only [bind_eq_ok_iff, liftM_eq_ok_iff, pure_eq_ok_iff]
      exact ⟨_, hoid, _, hvalue, rfl⟩

theorem faithful : Faithful encode (fun e r => decode e = .ok r) fun _ => True :=
  (Faithful.headed (f := oid) (g := value) (.stringTagged oidTag) (.octetsTagged valueTag)
    (fun _ => rfl) fun _ _ => decode_eq_ok_iff).of_iff (by simp)

end ExtendedRequest
end Ldap
