import Ldap.Dn.Basic
import Ldap.Proofs.Dn.Value

/-!
# What the normal form of a name tells

The normalized text of a name that was read without a schema joins names and values with signs that
stand in them behind backslashes only. So it tells the components of the name in normal form
(`Dn.normalized_eq_iff`), and equality of normalized texts is equality of these.
-/

namespace Ldap

open Text (Sealed)

/-! ## Attribute names -/

/-- Signs that a name may have are ASCII, so that all of them can be gone through. -/
theorem isNameChar_toLower {c : Char} (h : Scan.isNameChar c = true) :
    Scan.isNameChar c.toLower = true := by
  have hall : ∀ n : Fin 128, Scan.isNameChar (Char.ofNat n.val) = true →
      Scan.isNameChar (Char.ofNat n.val).toLower = true := by decide
  have hlt : c.toNat < 128 := by
    have hle {high : Char} (hhigh : high.toNat < 128) (hc : c.val ≤ high.val) : c.toNat < 128 :=
      lt_of_le_of_lt (UInt32.le_iff_toNat_le.1 hc) hhigh
    simp only [Scan.isNameChar, Bool.or_eq_true, decide_eq_true_eq] at h
    rcases h with ((halnum | rfl) | rfl) | rfl
    · obtain halpha | hdigit := Bool.or_eq_true_iff.1 halnum
      · obtain hupper | hlower := Bool.or_eq_true_iff.1 halpha
        · exact hle (by decide : 'Z'.toNat < 128) (of_decide_eq_true hupper).2
        · exact hle (by decide : 'z'.toNat < 128) (of_decide_eq_true (Bool.and_elim_right hlower))
      · exact hle (by decide : '9'.toNat < 128) (of_decide_eq_true (Bool.and_elim_right hdigit))
    · decide
    · decide
    · decide
  have hc := hall ⟨c.toNat, hlt⟩
  rw [Char.ofNat_toNat] at hc
  exact hc h

/-- The plain form of an attribute name has only signs that an attribute name may have. It may be
empty, for the name `oid.`. -/
theorem isNameChar_of_mem_plainName {name : String}
    (h : ∀ c ∈ name.toList, Scan.isNameChar c = true) :
    ∀ c ∈ (plainName name).toList, Scan.isNameChar c = true := by
  have hlower {cs : List Char} (hcs : ∀ c ∈ cs, Scan.isNameChar c = true) :
      ∀ c ∈ cs.map Char.toLower, Scan.isNameChar c = true := by
    intro c hc
    obtain ⟨d, hd, rfl⟩ := List.mem_map.1 hc
    exact isNameChar_toLower (hcs d hd)
  simp only [plainName, Text.asciiLower]
  split
  · rw [String.toList_ofList, String.toList_ofList]
    exact hlower fun c hc => h c (List.mem_of_mem_drop hc)
  · rw [String.toList_ofList]
    exact hlower h

/-- Lists that agree in what tells their members apart agree in all that it tells. -/
theorem map_eq_map_of_imp {α β γ : Type} {P : α → Prop} {f : α → β} {g : α → γ}
    (hfg : ∀ a b, P a → P b → f a = f b → g a = g b) {as bs : List α} (has : ∀ a ∈ as, P a)
    (hbs : ∀ b ∈ bs, P b) (h : as.map f = bs.map f) : as.map g = bs.map g := by
  induction as generalizing bs with
  | nil =>
    rw [List.map_nil, eq_comm, List.map_eq_nil_iff] at h
    rw [h]
  | cons a as ih =>
    cases bs with
    | nil => simp at h
    | cons b bs =>
      rw [List.forall_mem_cons] at has hbs
      obtain ⟨hhead, htail⟩ := List.cons.inj h
      rw [List.map_cons, List.map_cons, hfg a b has.1 hbs.1 hhead, ih has.2 hbs.2 htail]

namespace Rdn

/-! ## Components -/

/-- A component in normal form as text. -/
def componentText (c : String × String) : List Char :=
  c.1.toList ++ '=' :: c.2.toList

/-- A component in normal form, of which the text tells the name and the value. -/
structure Legible (c : String × String) : Prop where
  isNameChar : ∀ ch ∈ c.1.toList, Scan.isNameChar ch = true
  sealed : Sealed Scan.endsValue c.2.toList

/-- A component is told by its text: the name ends at the equals sign, which stands in no name. -/
theorem componentText_inj {c c' : String × String} (hc : Legible c) (hc' : Legible c')
    (h : componentText c = componentText c') : c = c' := by
  have hspan {c : String × String} (hc : Legible c) :=
    Text.span_eq_iff.2 ⟨(rfl : componentText c = _), hc.isNameChar,
      fun ch hch => by cases Option.mem_some.1 hch; rfl⟩
  obtain ⟨hname, hvalue⟩ := hspan hc
  obtain ⟨hname', hvalue'⟩ := hspan hc'
  rw [h] at hname hvalue
  have hvalues : '=' :: c.2.toList = '=' :: c'.2.toList := hvalue.symm.trans hvalue'
  exact Prod.ext (String.toList_injective (hname.symm.trans hname'))
    (String.toList_injective (List.cons.inj hvalues).2)

/-- The sign between components stands in none of them but behind a backslash. -/
theorem Legible.sealed_componentText {c : String × String} (hc : Legible c) :
    Sealed Scan.endsValue (componentText c) := by
  have hname : Sealed Scan.endsValue c.1.toList := by
    refine Text.sealed_of_forall fun ch hch => ?_
    have hnameChar := hc.isNameChar ch hch
    refine ⟨?_, Bool.eq_false_iff.2 fun hends => ?_⟩
    · rintro rfl
      cases hnameChar
    · simp only [Scan.endsValue, Scan.isSeparator, Bool.or_eq_true, decide_eq_true_eq] at hends
      rcases hends with (rfl | rfl) | rfl <;> cases hnameChar
  exact hname.append (.plain (by decide) (by decide) hc.sealed)

/-! ## Relative names -/

/-- A relative name as it is read without a schema. -/
structure Plain (r : Rdn) : Prop where
  schema_eq : r.schema = none
  components_ne : r.components ≠ []
  isName : ∀ c ∈ r.components, Scan.IsName c.name.toList

theorem normalComponents_perm (r : Rdn) :
    r.normalComponents.Perm (r.components.map (normalComponent r.schema)) :=
  List.mergeSort_perm _ _

theorem Plain.legible {r : Rdn} (h : r.Plain) : ∀ c ∈ r.normalComponents, Legible c := by
  intro c hc
  obtain ⟨part, hpart, rfl⟩ := List.mem_map.1 (r.normalComponents_perm.mem_iff.1 hc)
  refine ⟨?_, ?_⟩
  · rw [h.schema_eq]
    exact isNameChar_of_mem_plainName (h.isName part hpart).isNameChar
  · show Sealed _ (String.ofList _).toList
    rw [String.toList_ofList]
    exact Value.sealed_normalize _ _

/-- A relative name has a component at least. -/
theorem Plain.normalComponents_ne {r : Rdn} (h : r.Plain) : r.normalComponents ≠ [] := by
  intro hnil
  have hperm := r.normalComponents_perm
  rw [hnil] at hperm
  exact h.components_ne (List.map_eq_nil_iff.1 hperm.nil_eq.symm)

/-- The normalized text of a relative name is its normal components with plus signs between them. -/
theorem toList_normalized (r : Rdn) :
    r.normalized.toList = ['+'].intercalate (r.normalComponents.map componentText) := by
  have hplus : "+".toList = ['+'] := rfl
  rw [normalized, String.toList_intercalate, hplus, List.map_map]
  congr 1
  refine List.map_congr_left fun c _ => ?_
  simp [componentText]

theorem Plain.sealed_texts {r : Rdn} (h : r.Plain) :
    ∀ x ∈ r.normalComponents.map componentText, Sealed Scan.endsValue x ∧ x ≠ [] := by
  intro x hx
  obtain ⟨c, hc, rfl⟩ := List.mem_map.1 hx
  exact ⟨(h.legible c hc).sealed_componentText, by simp [componentText]⟩

/-- The normalized text of a relative name tells its components in normal form. -/
theorem normalComponents_eq_of_normalized_eq {r r' : Rdn} (hr : r.Plain) (hr' : r'.Plain)
    (h : r.normalized = r'.normalized) : r.normalComponents = r'.normalComponents := by
  have hchars := congrArg String.toList h
  rw [toList_normalized, toList_normalized] at hchars
  have htexts :=
    Text.intercalate_inj (by decide) (by decide) hr.sealed_texts hr'.sealed_texts hchars
  have hcomponents := map_eq_map_of_imp (fun c c' hc hc' => componentText_inj hc hc')
    hr.legible hr'.legible htexts
  rwa [List.map_id', List.map_id'] at hcomponents

/-- The text of a relative name has a separator behind backslashes only, and it is not empty. -/
theorem Plain.sealed_normalized {r : Rdn} (h : r.Plain) :
    Sealed Scan.isSeparator r.normalized.toList ∧ r.normalized.toList ≠ [] := by
  rw [toList_normalized]
  refine ⟨.intercalate (by decide) (by decide) fun x hx => ?_, ?_⟩
  · refine (h.sealed_texts x hx).1.mono fun c hc => ?_
    exact (Bool.or_eq_false_iff.1 hc).1
  · obtain ⟨c, cs, hcs⟩ := List.exists_cons_of_ne_nil h.normalComponents_ne
    rw [hcs, List.map_cons, Text.intercalate_cons]
    simp [componentText]

/-- Two relative names are equal exactly if their components in normal form are. -/
theorem beq_iff {r r' : Rdn} (hr : r.Plain) (hr' : r'.Plain) :
    (r == r') = true ↔ r.normalComponents = r'.normalComponents := by
  show (r.normalized == r'.normalized) = true ↔ _
  rw [beq_iff_eq]
  refine ⟨normalComponents_eq_of_normalized_eq hr hr', fun h => ?_⟩
  rw [normalized, normalized, h]

end Rdn

namespace Dn

/-- What is read as a name keeps the text, which spells the relative names. -/
theorem exists_spelled_of_parse {text : String} {schema : Option Schema} {d : Dn}
    (h : parse text schema = .ok d) :
    ∃ rs, Scan.Spelled text.toList rs ∧ d = ⟨text, rs.map (Rdn.ofScanned schema)⟩ := by
  cases hread : Scan.distinguishedName text with
  | error e =>
    rw [parse, hread] at h
    cases h
  | ok rs =>
    rw [parse, hread] at h
    cases h
    exact ⟨rs, Scan.distinguishedName_eq_ok_iff.1 hread, rfl⟩

theorem parse_of_relatives {text : String} {rs : List Scan.Relative}
    (hhead : text.toList.head? ≠ some ' ') (h : Scan.relatives text.toList = .ok rs)
    (schema : Option Schema) : parse text schema = .ok ⟨text, rs.map (Rdn.ofScanned schema)⟩ := by
  have hspelled := (Scan.namesSpelled_of_relatives hhead h).spelled
  rw [parse, Scan.distinguishedName_eq_ok_iff.2 hspelled]
  rfl

/-- The relative names of a name that was read without a schema are plain. -/
theorem plain_of_parse {text : String} {d : Dn} (h : parse text none = .ok d) :
    ∀ r ∈ d.rdns, r.Plain := by
  obtain ⟨rs, hspelled, rfl⟩ := exists_spelled_of_parse h
  intro r hr
  obtain ⟨found, hfound, rfl⟩ := List.mem_map.1 hr
  obtain ⟨hne, hname⟩ := (hspelled.relativeSpelled found hfound).parts.isName
  exact ⟨rfl, hne, hname⟩

/-- The normalized text of a name is those of its relative names with commas between them. -/
theorem toList_normalized (d : Dn) :
    d.normalized.toList = [','].intercalate (d.rdns.map fun r => r.normalized.toList) := by
  have hcomma : ",".toList = [','] := rfl
  rw [normalized, String.toList_intercalate, hcomma, List.map_map]
  rfl

/-- The normalized text of a name tells the components of its relative names in normal form. -/
theorem normalized_eq_iff {a b : Dn} (ha : ∀ r ∈ a.rdns, r.Plain) (hb : ∀ r ∈ b.rdns, r.Plain) :
    a.normalized = b.normalized ↔
      a.rdns.map Rdn.normalComponents = b.rdns.map Rdn.normalComponents := by
  constructor
  · intro h
    have hchars := congrArg String.toList h
    rw [toList_normalized, toList_normalized] at hchars
    have hsealed {d : Dn} (hd : ∀ r ∈ d.rdns, r.Plain) :
        ∀ x ∈ d.rdns.map fun r => r.normalized.toList, Sealed Scan.isSeparator x ∧ x ≠ [] := by
      intro x hx
      obtain ⟨r, hr, rfl⟩ := List.mem_map.1 hx
      exact (hd r hr).sealed_normalized
    have htexts := Text.intercalate_inj (by decide) (by decide) (hsealed ha) (hsealed hb) hchars
    refine map_eq_map_of_imp (fun r r' hr hr' htext => ?_) ha hb htexts
    exact Rdn.normalComponents_eq_of_normalized_eq hr hr' (String.toList_injective htext)
  · intro h
    have hnormalized (d : Dn) : d.rdns.map Rdn.normalized =
        (d.rdns.map Rdn.normalComponents).map fun cs =>
          "+".intercalate (cs.map fun c => c.1 ++ "=" ++ c.2) := by
      rw [List.map_map]
      rfl
    rw [normalized, normalized, hnormalized, hnormalized, h]

end Dn
end Ldap
