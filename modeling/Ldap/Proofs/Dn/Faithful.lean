import Ldap.Proofs.Dn.Normal

/-!
# The text of a name

Names are read, joined of relative names, put below other names and cut to the name one level up,
and each time the text is put together anew. It always spells the relative names (`Dn.Faithful`),
so that reading it yields them again.
-/

namespace Ldap

open Scan (IsName PartSpelled PartsSpelled RelativeSpelled NamesSpelled Spelled)

/-! ## Components -/

/-- A component whose name has only signs that a name may have, and whose value is not empty. -/
structure Component.Loose (c : Component) : Prop where
  isNameChar : ∀ ch ∈ c.name.toList, Scan.isNameChar ch = true
  value_ne : c.value ≠ []

/-- A component that is read back from what is written for it. -/
structure Component.Writable (c : Component) : Prop where
  isName : IsName c.name.toList
  value_ne : c.value ≠ []
  value_writable : Value.Writable c.value

/-- A writable component spells itself, however its value is escaped. -/
theorem Component.Writable.partSpelled {c : Component} (h : c.Writable)
    (escaping : Value.Escaping) :
    PartSpelled (c.name.toList ++ '=' :: Value.escape escaping c.value) c := by
  have hvalue : Scan.ValueSpelled (Value.escape escaping c.value) c.value :=
    Value.valueSpelled_escape h.value_ne h.value_writable
  have hspelled := PartSpelled.mk h.isName Scan.spaces_nil Scan.spaces_nil hvalue
  rwa [String.ofList_toList] at hspelled

/-! ## Relative names -/

namespace Rdn

/-- What is to be read of a relative name. -/
def scanned (r : Rdn) : Scan.Relative :=
  ⟨r.components, r.text⟩

/-- Whether the text of a relative name spells its components. -/
def Faithful (r : Rdn) : Prop :=
  PartsSpelled r.text.toList r.components

theorem Faithful.relativeSpelled {r : Rdn} (h : r.Faithful) :
    RelativeSpelled r.text.toList r.scanned where
  parts := h
  text_eq := String.ofList_toList.symm

/-- Components are written with a plus sign between them. -/
theorem toList_render (escaping : Value.Escaping) (cs : List Component) :
    (render escaping cs).toList = ['+'].intercalate
      (cs.map fun c => c.name.toList ++ '=' :: Value.escape escaping c.value) := by
  have hplus : "+".toList = ['+'] := rfl
  rw [render, String.toList_intercalate, hplus, List.map_map]
  congr 1
  refine List.map_congr_left fun c _ => ?_
  simp

/-- Writable components, written one after the other, spell themselves. -/
theorem partsSpelled_render {cs : List Component} (hne : cs ≠ []) (h : ∀ c ∈ cs, c.Writable)
    (escaping : Value.Escaping) : PartsSpelled (render escaping cs).toList cs := by
  rw [toList_render]
  induction cs with
  | nil => exact absurd rfl hne
  | cons c cs ih =>
    rw [List.forall_mem_cons] at h
    cases cs with
    | nil =>
      rw [List.map_singleton, List.intercalate_singleton]
      exact .single (h.1.partSpelled escaping)
    | cons c' cs =>
      rw [List.map_cons, List.map_cons, List.intercalate_cons_cons, List.append_assoc]
      exact .cons (h.1.partSpelled escaping) Scan.spaces_nil Scan.spaces_nil
        (ih (List.cons_ne_nil _ _) h.2)

/-- A relative name that was read keeps its text, which spells it. -/
theorem faithful_of_parse {text : String} {schema : Option Schema} {r : Rdn}
    (h : parse text schema = .ok r) : r.Faithful := by
  cases hread : Scan.relativeName text with
  | error e =>
    rw [parse, hread] at h
    cases h
  | ok found =>
    rw [parse, hread] at h
    cases h
    exact (Scan.relativeSpelled_of_relativeName hread).parts

/-- One that was made of components has the text that is written for them. -/
theorem faithful_of_ofComponents? {cs : List Component} {r : Rdn} (h : ofComponents? cs = .ok r)
    (hcs : ∀ c ∈ cs, c.Writable) : r.Faithful := by
  rw [ofComponents?] at h
  split at h
  · cases h
  · next hne =>
    cases h
    exact partsSpelled_render (by simpa using hne) hcs .full

end Rdn

/-! ## Names -/

namespace Dn

/-- Whether the text of a name spells its relative names. -/
def Faithful (d : Dn) : Prop :=
  Spelled d.text.toList (d.rdns.map Rdn.scanned)

theorem Faithful.rdns {d : Dn} (h : d.Faithful) : ∀ r ∈ d.rdns, r.Faithful := fun r hr =>
  (h.relativeSpelled r.scanned (List.mem_map_of_mem hr)).parts

/-- A name that was read is spelled by its text. -/
theorem faithful_of_parse {text : String} {schema : Option Schema} {d : Dn}
    (h : parse text schema = .ok d) : d.Faithful := by
  obtain ⟨rs, hspelled, rfl⟩ := exists_spelled_of_parse h
  have hscanned : (rs.map (Rdn.ofScanned schema)).map Rdn.scanned = rs := by
    rw [List.map_map]
    exact List.map_id rs
  rwa [Faithful, hscanned]

/-- What is spelled by the text of a name is read again, and with its own text. -/
theorem Faithful.parse_text {d : Dn} (h : d.Faithful) (schema : Option Schema) :
    ∃ d', parse d.text schema = .ok d' ∧ d'.rdns.map Rdn.scanned = d.rdns.map Rdn.scanned := by
  refine ⟨_, by rw [parse, Scan.distinguishedName_eq_ok_iff.2 h]; rfl, ?_⟩
  rw [List.map_map, List.map_map]
  rfl

/-- Faithful relative names with commas between them spell the name that they make. -/
theorem namesSpelled_intercalate {rs : List Rdn} (hne : rs ≠ []) (h : ∀ r ∈ rs, r.Faithful) :
    NamesSpelled ([','].intercalate (rs.map (·.text.toList))) (rs.map Rdn.scanned) := by
  induction rs with
  | nil => exact absurd rfl hne
  | cons r rs ih =>
    rw [List.forall_mem_cons] at h
    cases rs with
    | nil =>
      rw [List.map_singleton, List.intercalate_singleton, ← List.append_nil r.text.toList]
      exact .last h.1.relativeSpelled Scan.spaces_nil
    | cons r' rs =>
      rw [List.map_cons, List.map_cons, List.intercalate_cons_cons, List.append_assoc]
      exact .cons h.1.relativeSpelled Scan.spaces_nil rfl Scan.spaces_nil
        (ih (List.cons_ne_nil _ _) h.2)

/-- A name that is made of faithful relative names is faithful. -/
theorem faithful_ofRdns {rs : List Rdn} (h : ∀ r ∈ rs, r.Faithful) : (ofRdns rs).Faithful := by
  have hcomma : ",".toList = [','] := rfl
  rw [Faithful, ofRdns, String.toList_intercalate, hcomma, List.map_map]
  by_cases hne : rs = []
  · subst hne
    exact .blank Scan.spaces_nil
  · exact (namesSpelled_intercalate hne h).spelled

/-- So is one that a faithful relative name is put in front of. -/
theorem Faithful.child {d : Dn} {r : Rdn} (hd : d.Faithful) (hr : r.Faithful) :
    (d.child r).Faithful := by
  unfold Dn.child Faithful
  by_cases hnil : d.rdns = []
  · have hnames := NamesSpelled.last hr.relativeSpelled Scan.spaces_nil
    rw [List.append_nil] at hnames
    rw [if_pos (by simp [hnil]), hnil]
    exact hnames.spelled
  · obtain ⟨gap, back, hgap, htext, hnames⟩ := hd.exists_namesSpelled (by simpa using hnil)
    have hcomma : ",".toList = [','] := rfl
    -- the gap in front of the text of `d` now stands behind the comma
    have hseparator : Scan.isSeparator ',' = true := by decide
    have hchild := NamesSpelled.cons hr.relativeSpelled Scan.spaces_nil hseparator hgap hnames
    rw [if_neg (by simpa using hnil), String.toList_append, String.toList_append, htext, hcomma,
      List.append_assoc]
    exact hchild.spelled

/-- The parent of a name lacks its first relative name. A name of one level has no parent, as the
null name is none. -/
theorem parent?_eq_some_iff {d p : Dn} :
    d.parent? = some p ↔ ∃ r rest, d.rdns = r :: rest ∧ rest ≠ [] ∧ p = ofRdns rest := by
  unfold parent?
  split
  · next r r' rest hrdns =>
    rw [Option.some.injEq, hrdns]
    constructor
    · rintro rfl
      exact ⟨r, r' :: rest, rfl, List.cons_ne_nil _ _, rfl⟩
    · rintro ⟨_, _, heq, -, rfl⟩
      rw [(List.cons.inj heq).2]
  · next hfew =>
    simp only [reduceCtorEq, false_iff]
    rintro ⟨r, rest, hrdns, hne, -⟩
    obtain ⟨r', rest, rfl⟩ := List.exists_cons_of_ne_nil hne
    exact hfew r r' rest hrdns

/-- The text of a parent is made anew from the texts of the relative names. -/
theorem Faithful.parent {d p : Dn} (hd : d.Faithful) (h : d.parent? = some p) : p.Faithful := by
  obtain ⟨r, rest, hrdns, -, rfl⟩ := parent?_eq_some_iff.1 h
  refine faithful_ofRdns fun r' hr' => hd.rdns r' ?_
  rw [hrdns]
  exact List.mem_cons_of_mem r hr'

end Dn

/-! ## Names that come to be -/

/-- How relative names come to be: they are read, on their own or within a name, or made of
components that satisfy `P`; and they may be given a schema. -/
inductive Rdn.Made (P : Component → Prop) : Rdn → Prop
  | read {text : String} {schema : Option Schema} {r : Rdn} (h : Rdn.parse text schema = .ok r) :
    Made P r
  | member {text : String} {schema : Option Schema} {d : Dn} {r : Rdn}
    (h : Dn.parse text schema = .ok d) (hr : r ∈ d.rdns) : Made P r
  | built {cs : List Component} {r : Rdn} (h : ofComponents? cs = .ok r) (hcs : ∀ c ∈ cs, P c) :
    Made P r
  | withSchema {r : Rdn} (h : Made P r) (schema : Schema) : Made P (r.withSchema schema)

theorem Rdn.Made.single {P : Component → Prop} {name : String} {bytes : List UInt8}
    (h : P ⟨name, bytes⟩) : (Rdn.single name bytes).Made P := by
  have hmade : ofComponents? [⟨name, bytes⟩] = .ok (Rdn.single name bytes) := rfl
  exact .built hmade (List.forall_mem_singleton.2 h)

theorem Rdn.Made.faithful {r : Rdn} (h : r.Made Component.Writable) : r.Faithful := by
  induction h with
  | read h => exact faithful_of_parse h
  | member h hr => exact (Dn.faithful_of_parse h).rdns _ hr
  | built h hcs => exact faithful_of_ofComponents? h hcs
  | withSchema _ _ ih => exact ih

namespace Dn

/-- The names that come to be by reading names, joining relative names, putting a relative name in
front of a name and going one level up, again and again. -/
inductive Reachable (P : Component → Prop) : Dn → Prop
  | parse {text : String} {schema : Option Schema} {d : Dn} (h : parse text schema = .ok d) :
    Reachable P d
  | ofRdns {rs : List Rdn} (h : ∀ r ∈ rs, r.Made P) : Reachable P (ofRdns rs)
  | child {d : Dn} {r : Rdn} (hd : Reachable P d) (hr : r.Made P) : Reachable P (d.child r)
  | parent {d p : Dn} (hd : Reachable P d) (h : d.parent? = some p) : Reachable P p

theorem Reachable.null_child_single {P : Component → Prop} {name : String} {bytes : List UInt8}
    (h : P ⟨name, bytes⟩) : (null.child (.single name bytes)).Reachable P := by
  have hnull : (Dn.ofRdns []).Reachable P := .ofRdns fun r hr => absurd hr List.not_mem_nil
  exact hnull.child (.single h)

/-- The induction is on how the name was built. -/
theorem Reachable.faithful {d : Dn} (h : d.Reachable Component.Writable) : d.Faithful := by
  induction h with
  | parse h => exact faithful_of_parse h
  | ofRdns h => exact faithful_ofRdns fun r hr => (h r hr).faithful
  | child _ hr ih => exact ih.child hr.faithful
  | parent _ h ih => exact ih.parent h

/-- However a name came to be, its text is read as a name with the same components, and the name one
level up with the entry's own relative name put below it has the same relative names. -/
theorem text_read_back_of_reachable {d : Dn} (h : d.Reachable Component.Writable) :
    (∃ d', parse d.text none = .ok d' ∧
      d'.rdns.map (·.components) = d.rdns.map (·.components)) ∧
    ∀ p, d.parent? = some p → ∃ r rest, d.rdns = r :: rest ∧ (p.child r).rdns = d.rdns := by
  constructor
  · obtain ⟨d', hread, hscanned⟩ := h.faithful.parse_text none
    refine ⟨d', hread, ?_⟩
    have hparts := congrArg (List.map (·.parts)) hscanned
    rwa [List.map_map, List.map_map] at hparts
  · intro p hp
    obtain ⟨r, rest, hrdns, -, rfl⟩ := parent?_eq_some_iff.1 hp
    exact ⟨r, rest, hrdns, hrdns.symm⟩

/-- A comma and a byte that is no text, as the values of two names one below the other. -/
theorem text_read_back_of_escaped_and_hexadecimal_value :
    ((null.child (.single "o" [0x2C])).child (.single "cn" [0xFF])).Reachable Component.Writable ∧
    ((null.child (.single "o" [0x2C])).child (.single "cn" [0xFF])).text = "cn=#0401ff,o=\\," ∧
    ∃ d', parse "cn=#0401ff,o=\\," none = .ok d' ∧
      d'.rdns.map (·.components) = [[⟨"cn", [0xFF]⟩], [⟨"o", [0x2C]⟩]] := by
  have ho : Component.Writable ⟨"o", [0x2C]⟩ :=
    ⟨⟨by simp, List.all_eq_true.1 rfl⟩, List.cons_ne_nil _ _, .inr (by simp)⟩
  have hcn : Component.Writable ⟨"cn", [0xFF]⟩ :=
    ⟨⟨by simp, List.all_eq_true.1 rfl⟩, List.cons_ne_nil _ _, .inr (by simp)⟩
  have hreachable := (Reachable.null_child_single ho).child (.single hcn)
  have htext : ((null.child (.single "o" [0x2C])).child (.single "cn" [0xFF])).text =
      "cn=#0401ff,o=\\," := by
    decide +kernel
  have hread := (text_read_back_of_reachable hreachable).1
  rw [htext] at hread
  exact ⟨hreachable, htext, hread⟩

/-- Bytes that are no text and too many for a length are read back as the octet string that was
written for them. -/
theorem components_ne_of_parse_long {name : String} {bytes : List UInt8} {d : Dn}
    (hname : IsName name.toList) (hbytes : Text.Utf8.decode? bytes = none)
    (hle : 2 ^ 32 ≤ bytes.length) (hlt : bytes.length < 2 ^ 64)
    (h : parse (null.child (.single name bytes)).text none = .ok d) :
    d.rdns.map (·.components) ≠ [[⟨name, bytes⟩]] := by
  have hspelled := PartSpelled.mk hname Scan.spaces_nil Scan.spaces_nil
    (Value.valueSpelled_hexForm_of_le hle hlt)
  have htext : (null.child (.single name bytes)).text.toList =
      name.toList ++ ([] ++ '=' :: ([] ++ Value.hexForm bytes)) := by
    have hrender := Rdn.toList_render .full [⟨name, bytes⟩]
    rw [List.map_singleton, List.intercalate_singleton, Value.escape, hbytes] at hrender
    exact hrender
  have hnames := NamesSpelled.last (r := ⟨_, (null.child (.single name bytes)).text⟩)
    ⟨.single hspelled, by rw [← htext]; exact String.ofList_toList.symm⟩ Scan.spaces_nil
  rw [List.append_nil, ← htext] at hnames
  rw [parse, Scan.distinguishedName_eq_ok_iff.2 hnames.spelled] at h
  cases h
  intro hsame
  have hraw : (Ber.Element.octetString bytes).encode = bytes := by
    simpa [Rdn.ofScanned] using hsame
  have hlonger := (Ber.Element.octetString bytes).length_content_lt
  rw [hraw] at hlonger
  exact lt_irrefl _ hlonger

/-- A relative name may be made with no attribute name, and then its text is no name; and bytes that
are no text may be more than four gigabytes, and then they are not what is read back. -/
theorem not_read_back_of_no_name_or_long_value :
    ((null.child (.single "" [0x78])).Reachable Component.Loose ∧
      ¬ ∃ d', parse (null.child (.single "" [0x78])).text none = .ok d') ∧
    (null.child (.single "cn" (List.replicate (2 ^ 32) 0xFF))).Reachable Component.Loose ∧
    ¬ ∃ d', parse (null.child (.single "cn" (List.replicate (2 ^ 32) 0xFF))).text none = .ok d' ∧
      d'.rdns.map (·.components) =
        (null.child (.single "cn" (List.replicate (2 ^ 32) 0xFF))).rdns.map (·.components) := by
  have hcn : IsName "cn".toList := ⟨by simp, List.all_eq_true.1 rfl⟩
  refine ⟨⟨.null_child_single ⟨by simp, List.cons_ne_nil _ _⟩, ?_⟩,
    .null_child_single ⟨hcn.isNameChar, ?_⟩, ?_⟩
  · have htext : (null.child (.single "" [0x78])).text = "=x" := by decide +kernel
    have hrelatives : Scan.relatives "=x".toList = .error ⟨.noName, "=x".toList⟩ := by
      rw [Scan.relatives_eq, Scan.relative, Scan.parts_eq]
      decide +kernel
    rw [htext]
    rintro ⟨d', hread⟩
    rw [parse, Scan.distinguishedName, show Scan.skipSpaces "=x".toList = "=x".toList from rfl,
      hrelatives] at hread
    cases hread
  · rw [Ne, List.replicate_eq_nil_iff]
    omega
  · have hlength : (List.replicate (2 ^ 32) (0xFF : UInt8)).length = 2 ^ 32 :=
      List.length_replicate
    have hbytes : Text.Utf8.decode? (List.replicate (2 ^ 32) 0xFF) = none := by
      obtain ⟨n, hn⟩ : ∃ n, 2 ^ 32 = n + 1 := ⟨2 ^ 32 - 1, rfl⟩
      rw [hn, List.replicate_succ]
      exact Text.Utf8.decode?_cons_eq_none (by unfold UInt8.IsUTF8FirstByte; decide) _
    rintro ⟨d', hread, hsame⟩
    have hlt : (List.replicate (2 ^ 32) (0xFF : UInt8)).length < 2 ^ 64 := by omega
    exact components_ne_of_parse_long hcn hbytes hlength.ge hlt hread hsame

end Dn
end Ldap
