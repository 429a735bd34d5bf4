import Ldap.Control.Basic
import Ldap.Proofs.Ber.Faithful

/-!
# Controls on the wire

Every control is read back from the element it is written as. A reader also accepts a criticality
that is false and spelled out, which is not written again.
-/

namespace Ldap.Control

open Ber (Element Tag)

/-- What is left when the identifier and the criticality are read is nothing or one octet string. -/
theorem decodeValue_eq_ok_iff {oid : String} {critical : Bool} {es : List Element} {c : Control} :
    decodeTail.decodeValue oid critical es = .ok c ↔
      c.oid = oid ∧ c.critical = critical ∧
        List.Forall₂ (fun x bytes => x.asOctets = .ok bytes) es c.value.toList := by
  rcases c with ⟨oid', critical', value⟩
  cases es with
  | nil =>
    cases value <;> simp [decodeTail.decodeValue, eq_comm]
  | cons e es =>
    rcases e with ⟨tag, content⟩
    unfold decodeTail.decodeValue
    dsimp only
    constructor
    · intro h
      split at h
      · next htag =>
        cases es with
        | nil =>
          obtain rfl : tag = .octetString := htag
          cases h
          exact ⟨rfl, rfl, .cons (Element.asOctetsTagged_eq_ok_iff.2 rfl) .nil⟩
        | cons extra es => cases h
      · cases h
    · intro h
      rcases h with ⟨rfl, rfl, hvalue⟩
      cases value with
      | none => cases hvalue
      | some bytes =>
        rcases forall₂_toList_some_iff.1 hvalue with ⟨x, hx, hread⟩
        obtain ⟨rfl, rfl⟩ := List.cons.inj hx
        cases Element.asOctetsTagged_eq_ok_iff.1 hread
        rw [if_pos rfl]

/-- The element that a criticality is read from; none stands for what may be ignored. -/
def SpellsCritical (critical : Bool) : List Element → Prop
  | [] => critical = false
  | [e] => e.asBoolean = .ok critical
  | _ => False

/-- Behind the identifier there may be a criticality and a value. They differ in their tags, so it
is clear which one is missing. -/
theorem decodeTail_eq_ok_iff {oid : String} {es : List Element} {c : Control} :
    decodeTail oid es = .ok c ↔
      c.oid = oid ∧ ∃ flag rest, es = flag ++ rest ∧ SpellsCritical c.critical flag ∧
        List.Forall₂ (fun x bytes => x.asOctets = .ok bytes) rest c.value.toList := by
  constructor
  · intro h
    cases es with
    | nil =>
      cases h
      exact ⟨rfl, [], [], rfl, rfl, .nil⟩
    | cons e es =>
      rw [decodeTail] at h
      split at h
      · rcases bind_eq_ok_iff.1 h with ⟨critical, hcritical, h⟩
        rcases decodeValue_eq_ok_iff.1 h with ⟨hoid, rfl, hvalue⟩
        exact ⟨hoid, [e], es, rfl, liftM_eq_ok_iff.1 hcritical, hvalue⟩
      · rcases decodeValue_eq_ok_iff.1 h with ⟨hoid, hcritical, hvalue⟩
        exact ⟨hoid, [], e :: es, rfl, hcritical, hvalue⟩
  · intro h
    rcases h with ⟨rfl, flag, rest, rfl, hflag, hvalue⟩
    match flag, hflag with
    | [], hcritical =>
      replace hcritical : c.critical = false := hcritical
      rw [List.nil_append]
      cases rest with
      | nil =>
        rcases c with ⟨oid, critical, value⟩
        cases value with
        | none => rw [show critical = false from hcritical, decodeTail]
        | some bytes => cases hvalue
      | cons e rest =>
        -- what is no criticality must be the value
        have htag : e.tag ≠ .boolean := by
          rcases List.forall₂_cons_left_iff.1 hvalue with ⟨bytes, _, hread, -, -⟩
          rw [Element.asOctetsTagged_eq_ok_iff.1 hread]
          show Tag.octetString ≠ Tag.boolean
          decide
        rw [decodeTail, if_neg htag]
        exact decodeValue_eq_ok_iff.2 ⟨rfl, hcritical, hvalue⟩
    | [e], hcritical =>
      have htag := (Element.asBooleanTagged_eq_ok_iff.1 hcritical).1
      rw [List.singleton_append, decodeTail, if_pos htag]
      exact bind_eq_ok_iff.2 ⟨_, liftM_eq_ok_iff.2 hcritical,
        decodeValue_eq_ok_iff.2 ⟨rfl, rfl, hvalue⟩⟩

/-- An element is read as a control if it is a sequence of an identifier, a criticality that may be
missing and a value that may be missing. -/
theorem decode_eq_ok_iff {e : Element} {c : Control} :
    decode e = .ok c ↔
      ∃ oid flag rest, e.Holds .sequence (oid :: (flag ++ rest)) ∧ oid.asString = .ok c.oid ∧
        SpellsCritical c.critical flag ∧
        List.Forall₂ (fun x bytes => x.asOctets = .ok bytes) rest c.value.toList := by
  unfold decode Element.asSequence
  simp only [bind_eq_ok_iff, liftM_eq_ok_iff, Element.asSequenceTagged_eq_ok_iff,
    checkCount_eq_ok_iff]
  constructor
  · intro h
    rcases h with ⟨es, hes, -, -, h⟩
    cases es with
    | nil => cases h
    | cons x es =>
      simp only [bind_eq_ok_iff, liftM_eq_ok_iff, decodeTail_eq_ok_iff] at h
      rcases h with ⟨oid, hoid, rfl, flag, rest, rfl, hflag, hvalue⟩
      exact ⟨x, flag, rest, hes, hoid, hflag, hvalue⟩
  · intro h
    rcases h with ⟨x, flag, rest, hes, hoid, hflag, hvalue⟩
    refine ⟨_, hes, (), ?_, ?_⟩
    · -- three members at most
      have hlen := hvalue.length_eq
      have hone : rest.length ≤ 1 := by
        cases hv : c.value <;> simp [hv] at hlen <;> simp [hlen]
      have htwo : flag.length ≤ 1 := by
        match flag, hflag with
        | [], _ => simp
        | [_], _ => simp
      simp
      omega
    · simp only [bind_eq_ok_iff, liftM_eq_ok_iff, decodeTail_eq_ok_iff]
      exact ⟨_, hoid, rfl, flag, rest, rfl, hflag, hvalue⟩

/-- The criticality as it is written. -/
def criticalMember (critical : Bool) : List Element :=
  if critical then [.boolean true] else []

theorem encode_eq (c : Control) :
    c.encode = .sequence (.string c.oid
      :: (criticalMember c.critical ++ c.value.toList.map .octetString)) := rfl

/-- What is written for a criticality is read as this criticality. -/
theorem spellsCritical_criticalMember (critical : Bool) :
    SpellsCritical critical (criticalMember critical) := by
  cases critical
  · rfl
  · exact Element.asBooleanTagged_booleanTagged .boolean true

/-- A criticality is written in no more room than it was read from. -/
theorem SpellsCritical.size_le {critical : Bool} {flag : List Element}
    (h : SpellsCritical critical flag) :
    Element.size (criticalMember critical) ≤ Element.size flag := by
  match flag, h with
  | [], h =>
    rw [show critical = false from h]
    rfl
  | [e], h =>
    have hle := Faithful.boolean.shrinks (show e.asBoolean = .ok critical from h)
    -- what is spelled out as uncritical is left out
    cases critical with
    | false => simp [criticalMember]
    | true => simpa [criticalMember] using hle

/-- Every control can be written, and is read back if its length can be told. -/
theorem faithful : Faithful encode (fun e c => decode e = .ok c) fun _ => True where
  reads {c} _ h := by
    rw [encode_eq] at h ⊢
    have hsize := Element.Short.size h
    rw [Element.size_cons, Element.size_append] at hsize
    exact decode_eq_ok_iff.2 ⟨_, _, _, Element.holds_constructed h,
      Element.asStringTagged_stringTagged _ _, spellsCritical_criticalMember _,
      Faithful.octets.forall₂_map (fun _ _ => trivial) (by omega)⟩
  good _ := trivial
  shrinks {e c} h := by
    rcases decode_eq_ok_iff.1 h with ⟨x, flag, rest, hes, hoid, hflag, hvalue⟩
    have hlex := Faithful.string.shrinks hoid
    have hflag' := hflag.size_le
    have hvalue' := Faithful.octets.size_le hvalue
    rw [encode_eq]
    apply hes.constructed_le _
    rw [Element.size_cons, Element.size_cons, Element.size_append, Element.size_append]
    omega

theorem decodeAll_eq_ok_iff {e : Element} {cs : List Control} :
    decodeAll e = .ok cs ↔ Lists (fun x c => decode x = .ok c) listTag e cs := by
  unfold decodeAll
  simp only [bind_eq_ok_iff, liftM_eq_ok_iff, Element.asSequenceTagged_eq_ok_iff, mapM_eq_ok_iff]
  rfl

/-- The same for a list of controls. -/
theorem faithful_all : Faithful encodeAll (fun e cs => decodeAll e = .ok cs) fun _ => True where
  reads _ h := decodeAll_eq_ok_iff.2 ((faithful.lists listTag).reads (fun _ _ => trivial) h)
  good _ := trivial
  shrinks h := (faithful.lists listTag).shrinks (decodeAll_eq_ok_iff.1 h)

end Ldap.Control
