import Ldap.Operation.Entry
import Ldap.Proofs.Ber.Faithful

/-!
# What a search finds, on the wire

For every type that `Ldap.Operation.Entry` writes and reads, one lemma says which elements are read
as a value (`decode_eq_ok_iff`), and from it follows that the type is faithful.
-/

namespace Ldap

open Ber (Element Tag)

/-! ## Texts -/

/-- Texts are read from elements one by one. -/
theorem stringsOf_eq_ok_iff {es : List Element} {texts : List String} :
    stringsOf es = .ok texts ↔ List.Forall₂ (fun e s => e.asString = .ok s) es texts := by
  unfold stringsOf
  simp only [mapM_eq_ok_iff, liftM_eq_ok_iff]

/-! ## Attributes -/

namespace Attribute

/-- An attribute is a name and a set of octet strings, which may be empty. -/
theorem decode_eq_ok_iff {e : Element} {a : Attribute} :
    decode e = .ok a ↔
      ∃ name values, e.Holds .sequence [name, values] ∧ name.asString = .ok a.name ∧
        Lists (fun v bytes => v.asOctets = .ok bytes) .set values a.values := by
  apply pair_eq_ok_iff.trans
  simp only [bind_eq_ok_iff, liftM_eq_ok_iff, Element.asSet_eq_ok_iff, mapM_eq_ok_iff,
    pure_eq_ok_iff]
  constructor
  · intro h
    rcases h with ⟨x, y, hes, name, hname, vs, hvs, values, hvalues, rfl⟩
    exact ⟨x, y, hes, hname, vs, hvs, hvalues⟩
  · intro h
    rcases h with ⟨x, y, hes, hname, vs, hvs, hvalues⟩
    exact ⟨x, y, hes, _, hname, vs, hvs, _, hvalues, rfl⟩

theorem faithful : Faithful encode (fun e a => decode e = .ok a) fun _ => True :=
  (Faithful.pair (f := name) (g := values) .string (Faithful.octets.lists .set) (fun _ => rfl)
    fun _ _ => decode_eq_ok_iff).of_iff (by simp)

end Attribute

/-! ## Changes -/

namespace Modification

/-- A change is a number, whatever it stands for, and an attribute. -/
theorem decode_eq_ok_iff {e : Element} {m : Modification} :
    decode e = .ok m ↔
      ∃ kind attr, e.Holds .sequence [kind, attr] ∧ kind.asEnumerated = .ok m.kind ∧
        Attribute.decode attr = .ok m.attr := by
  apply pair_eq_ok_iff.trans
  simp only [bind_eq_ok_iff, liftM_eq_ok_iff, pure_eq_ok_iff]
  constructor
  · intro h
    rcases h with ⟨x, y, hes, kind, hkind, attr, hattr, rfl⟩
    exact ⟨x, y, hes, hkind, hattr⟩
  · intro h
    rcases h with ⟨x, y, hes, hkind, hattr⟩
    exact ⟨x, y, hes, _, hkind, _, hattr, rfl⟩

theorem faithful : Faithful encode (fun e m => decode e = .ok m) fun _ => True :=
  (Faithful.pair (f := kind) (g := attr) .enumerated Attribute.faithful (fun _ => rfl)
    fun _ _ => decode_eq_ok_iff).of_iff (by simp)

end Modification

/-! ## What a search finds -/

/-- The readers of a name and a list of members are all alike. -/
theorem named_list_eq_ok_iff {α β : Type} {x y : Element} {read : Element → Except ProtocolError β}
    {make : String → List β → α} {a : α} {name : String} {bs : List β}
    (hmake : ∀ n cs, make n cs = a ↔ n = name ∧ cs = bs) :
    (do
      let n ← x.asString
      let es ← y.asSequence
      let cs ← es.mapM read
      return make n cs : Except ProtocolError α) = .ok a ↔
      x.asString = .ok name ∧ Lists (fun e b => read e = .ok b) .sequence y bs := by
  simp only [bind_eq_ok_iff, liftM_eq_ok_iff, pure_eq_ok_iff, mapM_eq_ok_iff, hmake]
  constructor
  · intro h
    rcases h with ⟨_, hname, es, hes, _, hcs, rfl, rfl⟩
    exact ⟨hname, es, Element.asSequenceTagged_eq_ok_iff.1 hes, hcs⟩
  · intro h
    rcases h with ⟨hname, es, hes, hcs⟩
    exact ⟨_, hname, es, Element.asSequenceTagged_eq_ok_iff.2 hes, _, hcs, rfl, rfl⟩

namespace Entry

/-- An entry is a name and a list of attributes under a tag of its own. -/
theorem decode_eq_ok_iff {e : Element} {r : Entry} :
    decode e = .ok r ↔
      ∃ dn attributes, e.Holds tag [dn, attributes] ∧ dn.asString = .ok r.dn ∧
        Lists (fun a x => Attribute.decode a = .ok x) .sequence attributes r.attributes := by
  refine pair_eq_ok_iff.trans (exists₂_congr fun x y => and_congr_right' ?_)
  exact named_list_eq_ok_iff fun n cs => by cases r; simp

theorem faithful : Faithful encode (fun e r => decode e = .ok r) fun _ => True :=
  (Faithful.pair (f := dn) (g := attributes) .string (Attribute.faithful.lists .sequence)
    (fun _ => rfl) fun _ _ => decode_eq_ok_iff).of_iff (by simp)

end Entry

namespace Reference

/-- A reference is a list of texts under a tag of its own, and not an empty one. -/
theorem decode_eq_ok_iff {e : Element} {r : Reference} :
    decode e = .ok r ↔
      r.urls ≠ [] ∧ Lists (fun x s => x.asString = .ok s) tag e r.urls := by
  unfold decode
  simp only [bind_eq_ok_iff, liftM_eq_ok_iff, Element.asSequenceTagged_eq_ok_iff,
    checkCount_eq_ok_iff, stringsOf_eq_ok_iff, pure_eq_ok_iff]
  constructor
  · intro h
    rcases h with ⟨es, hes, -, ⟨hmin, -⟩, urls, hurls, rfl⟩
    refine ⟨?_, es, hes, hurls⟩
    intro heq
    subst heq
    -- as many elements as places, and one at least
    rw [hurls.length_eq] at hmin
    cases hmin
  · intro h
    rcases h with ⟨hne, es, hes, hurls⟩
    refine ⟨es, hes, (), ⟨?_, by simp⟩, _, hurls, rfl⟩
    rw [hurls.length_eq]
    exact List.length_pos_iff.2 hne

/-- A reference without a place where the search may go on is not read back. -/
theorem faithful : Faithful encode (fun e r => decode e = .ok r) fun r => r.urls ≠ [] where
  reads hne hshort := decode_eq_ok_iff.2
    ⟨hne, (Faithful.string.lists tag).reads (fun _ _ => trivial) hshort⟩
  good h := (decode_eq_ok_iff.1 h).1
  shrinks h := (Faithful.string.lists tag).shrinks (decode_eq_ok_iff.1 h).2

end Reference
end Ldap
