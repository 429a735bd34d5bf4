import Ldap.Proofs.Dn.Canonical
import Ldap.Proofs.Dn.Faithful

/-!
# Reading what is written for a name

A name has two more texts than the one that it was read from: one with as few escapes as can be,
and the normalized one. Both are written component by component, and are read as names with the
components that were written (`Dn.parse_written`) unless one of these has no name or no value
(`Dn.writable_of_parse_written`). `Dn.parse_minimal_and_normalized_iff` says which names are read
back from these texts.
-/

namespace Ldap

open Scan (IsName PartSpelled PartsSpelled Separated Trails)

/-! ## Components that may be blank -/

/-- A component that may have no name or no value, and is else one that is read back. -/
structure Component.Written (c : Component) : Prop where
  isNameChar : ∀ ch ∈ c.name.toList, Scan.isNameChar ch = true
  value_writable : Value.Writable c.value

theorem Component.Written.writable {c : Component} (h : c.Written) (hname : c.name.toList ≠ [])
    (hvalue : c.value ≠ []) : c.Writable :=
  ⟨⟨hname, h.isNameChar⟩, hvalue, h.value_writable⟩

/-- A component as it is written. -/
def Component.text (escaping : Value.Escaping) (c : Component) : List Char :=
  c.name.toList ++ '=' :: Value.escape escaping c.value

theorem Component.Written.head_text_ne {c : Component} (h : c.Written) (escaping : Value.Escaping)
    (rest : List Char) : (c.text escaping ++ rest).head? ≠ some ' ' := by
  cases hname : c.name.toList with
  | nil => simp [text, hname]
  | cons ch name =>
    have hch := h.isNameChar ch (by simp [hname])
    rintro hspace
    obtain rfl : ch = ' ' := by simpa [text, hname] using hspace
    cases hch

/-- What is read of the text of a component has a name and a value. -/
theorem Component.Written.writable_of_part {c : Component} (h : c.Written)
    {escaping : Value.Escaping} {rest : List Char} (hrest : Trails rest)
    {x : Scan.Part × List Char} (hread : Scan.part (c.text escaping ++ rest) = .ok x) :
    c.Writable := by
  rw [Scan.part, Scan.skipSpaces_of_head (h.head_text_ne escaping rest)] at hread
  obtain ⟨⟨name, left⟩, hattribute, hread⟩ := bind_eq_ok_iff.1 hread
  have hname : c.name.toList ≠ [] := by
    intro hnil
    obtain ⟨front, hsplit, hfront, -⟩ := Scan.attributeName_eq_ok_iff.1 hattribute
    obtain ⟨ch, front, rfl⟩ := List.exists_cons_of_ne_nil hfront.ne_nil
    rw [text, hnil] at hsplit
    obtain rfl : '=' = ch := (List.cons.inj hsplit).1
    exact absurd (hfront.isNameChar '=' List.mem_cons_self) (by decide)
  refine h.writable hname fun hvalue => ?_
  -- the name ends at the equals sign, and what follows ends the value before it begins
  have hname' : Scan.attributeName (c.text escaping ++ rest) = .ok (c.name, '=' :: rest) := by
    refine Scan.attributeName_eq_ok_iff.2
      ⟨c.name.toList, ?_, ⟨hname, h.isNameChar⟩, String.ofList_toList.symm, by simp⟩
    have hempty : Value.escape escaping [] = [] := by cases escaping <;> decide
    rw [text, hvalue, hempty, List.append_assoc]
    rfl
  rw [hname'] at hattribute
  cases hattribute
  rcases hrest with ⟨gap, after, hgap, rfl, hafter⟩
  have hspace : after.head? ≠ some ' ' := fun hhead => absurd (hafter ' ' hhead) (by decide)
  have hskip : Scan.skipSpaces (gap ++ after) = after := Scan.skipSpaces_append hgap hspace
  have hequals : Scan.skipSpaces ('=' :: (gap ++ after)) = '=' :: (gap ++ after) :=
    Scan.skipSpaces_of_head (by simp)
  simp only [hequals, hskip] at hread
  obtain ⟨x, hread, -⟩ := bind_eq_ok_iff.1 hread
  cases after with
  | nil => cases hread
  | cons ch after =>
    rw [Scan.value, if_pos (hafter ch rfl)] at hread
    cases hread

/-! ## Relative names -/

/-- Components as they are written, with plus signs between them. -/
def Rdn.joined (escaping : Value.Escaping) (cs : List Component) : List Char :=
  ['+'].intercalate (cs.map (Component.text escaping))

theorem Rdn.toList_render_eq (escaping : Value.Escaping) (cs : List Component) :
    (render escaping cs).toList = joined escaping cs :=
  toList_render escaping cs

theorem Rdn.joined_cons_cons (escaping : Value.Escaping) (c c' : Component) (cs : List Component) :
    joined escaping (c :: c' :: cs) = c.text escaping ++ '+' :: joined escaping (c' :: cs) := by
  rw [joined, List.map_cons, List.map_cons, List.intercalate_cons_cons, List.append_assoc]
  rfl

theorem Rdn.head_joined_ne {escaping : Value.Escaping} {c : Component} {cs : List Component}
    (h : c.Written) (rest : List Char) :
    (joined escaping (c :: cs) ++ rest).head? ≠ some ' ' := by
  cases cs with
  | nil => simpa [joined] using h.head_text_ne escaping rest
  | cons c' cs =>
    rw [joined_cons_cons, List.append_assoc]
    exact h.head_text_ne escaping _

/-- What is read of the text of components has names and values. -/
theorem Rdn.writable_of_parts {escaping : Value.Escaping} {cs : List Component} (hne : cs ≠ [])
    (h : ∀ c ∈ cs, c.Written) {rest : List Char} (hrest : Separated rest)
    {x : List Scan.Part × List Char}
    (hread : Scan.parts (joined escaping cs ++ rest) = .ok x) : ∀ c ∈ cs, c.Writable := by
  induction cs generalizing x with
  | nil => exact absurd rfl hne
  | cons c cs ih =>
    rw [List.forall_mem_cons] at h
    rw [Scan.parts_eq] at hread
    obtain ⟨⟨p, left⟩, hpart, hread⟩ := bind_eq_ok_iff.1 hread
    cases cs with
    | nil =>
      rw [joined, List.map_singleton, List.intercalate_singleton] at hpart
      exact List.forall_mem_singleton.2 (h.1.writable_of_part hrest.trails hpart)
    | cons c' cs =>
      rw [joined_cons_cons, List.append_assoc, List.cons_append] at hpart
      have htrails : Trails ('+' :: (joined escaping (c' :: cs) ++ rest)) :=
        Scan.trails_of_head (by simp [Scan.endsValue])
      have hc := h.1.writable_of_part htrails hpart
      -- so the first component was read, and the others are next
      have hpart' : Scan.part (c.text escaping ++ '+' :: (joined escaping (c' :: cs) ++ rest)) =
          .ok (c, '+' :: (joined escaping (c' :: cs) ++ rest)) :=
        Scan.part_of_partSpelled (hc.partSpelled escaping) htrails
      rw [hpart'] at hpart
      cases hpart
      have hhead : (joined escaping (c' :: cs) ++ rest).head? ≠ some ' ' :=
        head_joined_ne (List.forall_mem_cons.1 h.2).1 rest
      have hplus (left : List Char) : Scan.skipSpaces ('+' :: left) = '+' :: left :=
        Scan.skipSpaces_of_head (by simp)
      simp only [hplus, Scan.skipSpaces_of_head hhead] at hread
      split at hread
      · cases hread
      · obtain ⟨x, hread, -⟩ := bind_eq_ok_iff.1 hread
        exact List.forall_mem_cons.2 ⟨hc, ih (List.cons_ne_nil c' cs) h.2 hread⟩

/-! ## Names -/

namespace Dn

/-- Relative names as they are written for their components, with commas between them. -/
def joined (escaping : Value.Escaping) (css : List (List Component)) : List Char :=
  [','].intercalate (css.map (Rdn.joined escaping))

/-- The text of a name as it is written for components. -/
def written (escaping : Value.Escaping) (css : List (List Component)) : String :=
  ",".intercalate (css.map (Rdn.render escaping))

theorem toList_written (escaping : Value.Escaping) (css : List (List Component)) :
    (written escaping css).toList = joined escaping css := by
  have hcomma : ",".toList = [','] := rfl
  rw [written, String.toList_intercalate, hcomma, List.map_map]
  exact congrArg _ (List.map_congr_left fun cs _ => Rdn.toList_render_eq escaping cs)

theorem joined_cons_cons (escaping : Value.Escaping) (cs cs' : List Component)
    (css : List (List Component)) :
    joined escaping (cs :: cs' :: css) =
      Rdn.joined escaping cs ++ ',' :: joined escaping (cs' :: css) := by
  rw [joined, List.map_cons, List.map_cons, List.intercalate_cons_cons, List.append_assoc]
  rfl

/-- Components of relative names, none of which is empty. -/
def Parted (P : Component → Prop) (css : List (List Component)) : Prop :=
  ∀ cs ∈ css, cs ≠ [] ∧ ∀ c ∈ cs, P c

theorem Parted.head_joined_ne {escaping : Value.Escaping} {css : List (List Component)}
    (h : Parted Component.Written css) : (joined escaping css).head? ≠ some ' ' := by
  cases css with
  | nil => simp [joined]
  | cons cs css =>
    obtain ⟨hne, hcs⟩ := h cs List.mem_cons_self
    obtain ⟨c, cs, rfl⟩ := List.exists_cons_of_ne_nil hne
    have hc := hcs c List.mem_cons_self
    cases css with
    | nil =>
      rw [joined, List.map_singleton, List.intercalate_singleton,
        ← List.append_nil (Rdn.joined escaping (c :: cs))]
      exact Rdn.head_joined_ne hc []
    | cons cs' css =>
      rw [joined_cons_cons]
      exact Rdn.head_joined_ne hc _

theorem joined_ne_nil {escaping : Value.Escaping} {css : List (List Component)}
    (h : Parted Component.Written css) (hne : css ≠ []) : joined escaping css ≠ [] := by
  obtain ⟨cs, css, rfl⟩ := List.exists_cons_of_ne_nil hne
  obtain ⟨c, cs, rfl⟩ := List.exists_cons_of_ne_nil (h cs List.mem_cons_self).1
  have htext : c.text escaping ≠ [] := by simp [Component.text]
  simp only [joined, Rdn.joined, List.map_cons, Text.intercalate_cons]
  simp [htext]

/-- What is read of the text of relative names has names and values throughout. -/
theorem writable_of_relatives {escaping : Value.Escaping} {css : List (List Component)}
    (h : Parted Component.Written css) {rs : List Scan.Relative}
    (hread : Scan.relatives (joined escaping css) = .ok rs) : Parted Component.Writable css := by
  induction css generalizing rs with
  | nil => exact fun cs hcs => absurd hcs List.not_mem_nil
  | cons cs css ih =>
    obtain ⟨⟨hne, hcs⟩, hcss⟩ := List.forall_mem_cons.1 h
    rw [Scan.relatives_eq] at hread
    obtain ⟨⟨r, left⟩, hrelative, hread⟩ := bind_eq_ok_iff.1 hread
    obtain ⟨x, hparts, -⟩ := bind_eq_ok_iff.1 hrelative
    cases css with
    | nil =>
      have hend : Separated [] := ⟨[], [], Scan.spaces_nil, rfl, by simp⟩
      rw [joined, List.map_singleton, List.intercalate_singleton,
        ← List.append_nil (Rdn.joined escaping cs)] at hparts
      exact List.forall_mem_singleton.2 ⟨hne, Rdn.writable_of_parts hne hcs hend hparts⟩
    | cons cs' css =>
      rw [joined_cons_cons] at hparts hrelative
      have hsep : Separated (',' :: joined escaping (cs' :: css)) :=
        ⟨[], _, Scan.spaces_nil, rfl, by simp [Scan.isSeparator]⟩
      have hwritable := Rdn.writable_of_parts hne hcs hsep hparts
      -- so the first relative name was read, and the others are next
      have hspelled := Rdn.partsSpelled_render hne hwritable escaping
      rw [Rdn.toList_render_eq] at hspelled
      have hrelative' := Scan.relative_of_relativeSpelled
        (r := ⟨cs, String.ofList (Rdn.joined escaping cs)⟩) ⟨hspelled, rfl⟩ hsep
      rw [hrelative'] at hrelative
      cases hrelative
      have hcomma (left : List Char) : Scan.skipSpaces (',' :: left) = ',' :: left :=
        Scan.skipSpaces_of_head (by simp)
      have hhead : (joined escaping (cs' :: css)).head? ≠ some ' ' := Parted.head_joined_ne hcss
      simp only [hcomma, Scan.skipSpaces_of_head hhead] at hread
      split at hread
      · split at hread
        · cases hread
        · obtain ⟨rs', hread, -⟩ := bind_eq_ok_iff.1 hread
          exact List.forall_mem_cons.2 ⟨⟨hne, hwritable⟩, ih hcss hread⟩
      · cases hread

/-- A text that is written for components is read as a name only if all of them have a name and a
value. -/
theorem writable_of_parse_written {escaping : Value.Escaping} {css : List (List Component)}
    (h : Parted Component.Written css) {d : Dn}
    (hread : parse (written escaping css) none = .ok d) :
    Parted Component.Writable css := by
  cases css with
  | nil => exact fun cs hcs => absurd hcs List.not_mem_nil
  | cons cs css =>
    cases hnames : Scan.distinguishedName (written escaping (cs :: css)) with
    | error e =>
      rw [parse, hnames] at hread
      cases hread
    | ok rs =>
      rw [Scan.distinguishedName, toList_written,
        Scan.skipSpaces_of_head h.head_joined_ne] at hnames
      simp only [List.isEmpty_iff, joined_ne_nil h (List.cons_ne_nil cs css), if_false] at hnames
      exact writable_of_relatives h (Scan.located_eq_ok_iff.1 hnames)

/-- What is written for components is read as a name with these. -/
theorem parse_written {css : List (List Component)} (h : Parted Component.Writable css)
    (escaping : Value.Escaping) :
    ∃ d, parse (written escaping css) none = .ok d ∧ d.rdns.map (·.components) = css := by
  have hfaithful : (ofRdns (css.map fun cs => ⟨cs, Rdn.render escaping cs, none⟩)).Faithful := by
    refine faithful_ofRdns fun r hr => ?_
    obtain ⟨cs, hcs, rfl⟩ := List.mem_map.1 hr
    exact Rdn.partsSpelled_render (h cs hcs).1 (h cs hcs).2 escaping
  have htext : (ofRdns (css.map fun cs => ⟨cs, Rdn.render escaping cs, none⟩)).text =
      written escaping css := by
    rw [ofRdns, List.map_map]
    rfl
  obtain ⟨d, hread, hscanned⟩ := hfaithful.parse_text none
  rw [htext] at hread
  refine ⟨d, hread, ?_⟩
  have hparts := congrArg (List.map (·.parts)) hscanned
  rw [List.map_map, List.map_map, ofRdns, List.map_map] at hparts
  exact hparts.trans (List.map_id css)

/-! ## The texts of a name that was read -/

theorem minimal_eq_written (d : Dn) :
    d.minimal = written .minimal (d.rdns.map (·.components)) := by
  rw [minimal, written, List.map_map]
  rfl

theorem normalized_eq_written {d : Dn} (h : ∀ r ∈ d.rdns, r.Plain) :
    d.normalized = written .full (d.rdns.map Rdn.canonicalParts) := by
  rw [normalized, written, List.map_map]
  exact congrArg _ (List.map_congr_left fun r hr => Rdn.normalized_eq_render (h r hr).schema_eq)

/-- Names that were read are equal if their components are in normal form, relative name by relative
name. -/
theorem beq_iff_sortNormal {a b : Dn} (ha : ∀ r ∈ a.rdns, r.Plain) (hb : ∀ r ∈ b.rdns, r.Plain) :
    (a == b) = true ↔ (a.rdns.map (·.components)).map Rdn.sortNormal =
      (b.rdns.map (·.components)).map Rdn.sortNormal := by
  have hsorted {d : Dn} (hd : ∀ r ∈ d.rdns, r.Plain) : d.rdns.map Rdn.normalComponents =
      (d.rdns.map (·.components)).map Rdn.sortNormal := by
    rw [List.map_map]
    exact List.map_congr_left fun r hr => Rdn.normalComponents_eq_sortNormal (hd r hr).schema_eq
  show (a.normalized == b.normalized) = true ↔ _
  rw [beq_iff_eq, normalized_eq_iff ha hb, hsorted ha, hsorted hb]

/-- A component of which the normal form can be read and stays the same: its value is not empty, and
its name is neither `oid.` alone nor begins with that twice. -/
structure Settled (c : Component) : Prop where
  value_ne : c.value ≠ []
  name_ne : plainName c.name ≠ ""
  plain : plainName (plainName c.name) = plainName c.name

theorem written_of_plain {d : Dn} (h : ∀ r ∈ d.rdns, r.Plain)
    (hvalues : ∀ r ∈ d.rdns, ∀ c ∈ r.components, Value.Writable c.value) :
    Parted Component.Written (d.rdns.map (·.components)) := by
  intro cs hcs
  obtain ⟨r, hr, rfl⟩ := List.mem_map.1 hcs
  exact ⟨(h r hr).components_ne,
    fun c hc => ⟨((h r hr).isName c hc).isNameChar, hvalues r hr c hc⟩⟩

theorem canonicalPart_mem {r : Rdn} {c : Component} (hc : c ∈ r.components) :
    Rdn.canonicalPart c ∈ r.canonicalParts :=
  r.canonicalParts_perm.mem_iff.2 (List.mem_map_of_mem hc)

theorem written_canonicalParts {d : Dn} (h : ∀ r ∈ d.rdns, r.Plain)
    (hvalues : ∀ r ∈ d.rdns, ∀ c ∈ r.components, Value.Writable c.value) :
    Parted Component.Written (d.rdns.map Rdn.canonicalParts) := by
  intro cs hcs
  obtain ⟨r, hr, rfl⟩ := List.mem_map.1 hcs
  refine ⟨fun hnil => ?_, fun c hc => ?_⟩
  · obtain ⟨c, hc⟩ := List.exists_mem_of_ne_nil _ (h r hr).components_ne
    have hmem := canonicalPart_mem hc
    rw [hnil] at hmem
    cases hmem
  · obtain ⟨part, hpart, rfl⟩ := List.mem_map.1 (r.canonicalParts_perm.mem_iff.1 hc)
    exact ⟨isNameChar_of_mem_plainName ((h r hr).isName part hpart).isNameChar,
      (hvalues r hr part hpart).canonical false⟩

/-- The minimal text of a name is read as an equal name exactly if no value is empty. -/
theorem parse_minimal_iff {d : Dn} (hplain : ∀ r ∈ d.rdns, r.Plain)
    (hvalues : ∀ r ∈ d.rdns, ∀ c ∈ r.components, Value.Writable c.value) :
    (∃ d', parse d.minimal none = .ok d' ∧ (d' == d) = true) ↔
      ∀ r ∈ d.rdns, ∀ c ∈ r.components, c.value ≠ [] := by
  have hwritten := written_of_plain hplain hvalues
  rw [minimal_eq_written]
  constructor
  · rintro ⟨d', hread, -⟩ r hr c hc
    have hwritable := writable_of_parse_written hwritten hread
    exact ((hwritable r.components (List.mem_map_of_mem hr)).2 c hc).value_ne
  · intro hne
    have hwritable : Parted Component.Writable (d.rdns.map (·.components)) := by
      intro cs hcs
      obtain ⟨r, hr, rfl⟩ := List.mem_map.1 hcs
      exact ⟨(hplain r hr).components_ne,
        fun c hc => ⟨(hplain r hr).isName c hc, hne r hr c hc, hvalues r hr c hc⟩⟩
    obtain ⟨d', hread, hparts⟩ := parse_written hwritable .minimal
    refine ⟨d', hread, (beq_iff_sortNormal (plain_of_parse hread) hplain).2 ?_⟩
    rw [hparts]

/-- The normalized text of a name is read as an equal name exactly if no value is empty, and each
name is left with something that is plain once a prefix is taken off. -/
theorem parse_normalized_iff {d : Dn} (hplain : ∀ r ∈ d.rdns, r.Plain)
    (hvalues : ∀ r ∈ d.rdns, ∀ c ∈ r.components, Value.Writable c.value) :
    (∃ d', parse d.normalized none = .ok d' ∧ (d' == d) = true) ↔
      ∀ r ∈ d.rdns, ∀ c ∈ r.components, Settled c := by
  have hwritten := written_canonicalParts hplain hvalues
  have hequal {d' : Dn}
      (hread : parse (written .full (d.rdns.map Rdn.canonicalParts)) none = .ok d')
      (hparts : d'.rdns.map (·.components) = d.rdns.map Rdn.canonicalParts) :
      (d' == d) = true ↔ ∀ r ∈ d.rdns, ∀ c ∈ r.components,
        plainName (plainName c.name) = plainName c.name := by
    rw [beq_iff_sortNormal (plain_of_parse hread) hplain, hparts, List.map_map, List.map_map,
      List.map_inj_left]
    exact forall₂_congr fun r _ => Rdn.sortNormal_canonicalParts_iff
  rw [normalized_eq_written hplain]
  constructor
  · rintro ⟨d', hread, hsame⟩ r hr c hc
    have hwritable := writable_of_parse_written hwritten hread
    obtain ⟨d'', hread', hparts⟩ := parse_written hwritable .full
    obtain rfl := Except.ok.inj (hread.symm.trans hread')
    have hpart := (hwritable r.canonicalParts (List.mem_map_of_mem hr)).2 _ (canonicalPart_mem hc)
    refine ⟨fun hvalue => hpart.value_ne (Value.canonical_eq_nil_iff.2 hvalue), fun hname => ?_,
      (hequal hread hparts).1 hsame r hr c hc⟩
    exact hpart.isName.ne_nil (by rw [Rdn.canonicalPart, hname]; rfl)
  · intro hsettled
    have hwritable : Parted Component.Writable (d.rdns.map Rdn.canonicalParts) := by
      refine fun cs hcs => ⟨(hwritten cs hcs).1, fun c hc => ?_⟩
      have hc' := (hwritten cs hcs).2 c hc
      obtain ⟨r, hr, rfl⟩ := List.mem_map.1 hcs
      obtain ⟨part, hpart, rfl⟩ := List.mem_map.1 (r.canonicalParts_perm.mem_iff.1 hc)
      have hs := hsettled r hr part hpart
      exact hc'.writable (fun hnil => hs.name_ne (String.toList_injective hnil))
        (mt Value.canonical_eq_nil_iff.1 hs.value_ne)
    obtain ⟨d', hread, hparts⟩ := parse_written hwritable .full
    exact ⟨d', hread, (hequal hread hparts).2 fun r hr c hc => (hsettled r hr c hc).plain⟩

/-- A name that was read, of which each value is a text or not too long to be written: its minimal
text is read as an equal name exactly if no value is empty; and its normalized text is read as an
equal name, or is its own normalized text, exactly if besides no name is `oid.` alone or begins with
it twice. -/
theorem parse_minimal_and_normalized_iff {text : String} {d : Dn} (h : parse text none = .ok d)
    (hvalues : ∀ r ∈ d.rdns, ∀ c ∈ r.components, Value.Writable c.value) :
    ((∃ d', parse d.minimal none = .ok d' ∧ (d' == d) = true) ↔
      ∀ r ∈ d.rdns, ∀ c ∈ r.components, c.value ≠ []) ∧
    ((∃ d', parse d.normalized none = .ok d' ∧ (d' == d) = true) ↔
      ∀ r ∈ d.rdns, ∀ c ∈ r.components, Settled c) ∧
    (normalize d.normalized = .ok d.normalized ↔
      ∀ r ∈ d.rdns, ∀ c ∈ r.components, Settled c) := by
  have hplain := plain_of_parse h
  refine ⟨parse_minimal_iff hplain hvalues, parse_normalized_iff hplain hvalues, ?_⟩
  rw [← parse_normalized_iff hplain hvalues, normalize]
  cases parse d.normalized none with
  | error e => simp [Except.map]
  | ok d' =>
    show Except.ok d'.normalized = _ ↔ ∃ x, Except.ok d' = .ok x ∧ (x.normalized == _) = true
    simp

/-- A prefix of a name and spaces in quotes are no hindrance. -/
theorem reread_of_prefix_and_quotes :
    ∃ d, parse "OID.cn=\"A  B\"" none = .ok d ∧
      (∃ d', parse d.minimal none = .ok d' ∧ (d' == d) = true) ∧
      (∃ d', parse d.normalized none = .ok d' ∧ (d' == d) = true) ∧
      normalize d.normalized = .ok d.normalized := by
  have hrelative : Scan.relative "OID.cn=\"A  B\"".toList =
      .ok (⟨[⟨"OID.cn", [0x41, 0x20, 0x20, 0x42]⟩], "OID.cn=\"A  B\""⟩, []) := by
    rw [Scan.relative, Scan.parts_eq]
    decide +kernel
  have hd := parse_of_relatives (by decide) (Scan.relatives_of_relative hrelative rfl) none
  have hprefix : plainName "OID.cn" = "cn" := by decide
  have hplain : plainName "cn" = "cn" := by decide
  have hsettled : Settled ⟨"OID.cn", [0x41, 0x20, 0x20, 0x42]⟩ :=
    ⟨List.cons_ne_nil _ _, hprefix.trans_ne (by decide),
      (congrArg plainName hprefix).trans (hplain.trans hprefix.symm)⟩
  obtain ⟨hminimal, hnormalized, hnormalize⟩ :=
    parse_minimal_and_normalized_iff hd (by simp [Rdn.ofScanned, Value.Writable])
  exact ⟨_, hd, hminimal.2 (by simp [Rdn.ofScanned]),
    hnormalized.2 (by simpa [Rdn.ofScanned] using hsettled),
    hnormalize.2 (by simpa [Rdn.ofScanned] using hsettled)⟩

/-- A value in quotes may be empty, and then what is written for it is no name; and of a name that
begins with `oid.` twice, what is normalized is normalized again to another name. -/
theorem not_reread_of_empty_value_or_two_prefixes :
    (∃ d, parse "cn=\"\"" none = .ok d ∧ d.minimal = "cn=" ∧ d.normalized = "cn=") ∧
    (¬ ∃ d, parse "cn=" none = .ok d) ∧
    (∃ d d', parse "oid.oid.cn=x" none = .ok d ∧ d.normalized = "oid.cn=x" ∧
      parse "oid.cn=x" none = .ok d' ∧ (d' == d) = false) ∧
    normalize "oid.oid.cn=x" = .ok "oid.cn=x" ∧ normalize "oid.cn=x" = .ok "cn=x" := by
  have hquotes : Scan.relative "cn=\"\"".toList = .ok (⟨[⟨"cn", []⟩], "cn=\"\""⟩, []) := by
    rw [Scan.relative, Scan.parts_eq]
    decide +kernel
  have hnothing : Scan.relatives "cn=".toList = .error ⟨.noValue "cn", []⟩ := by
    rw [Scan.relatives_eq, Scan.relative, Scan.parts_eq]
    decide +kernel
  have htwo : Scan.relative "oid.oid.cn=x".toList =
      .ok (⟨[⟨"oid.oid.cn", [0x78]⟩], "oid.oid.cn=x"⟩, []) := by
    rw [Scan.relative, Scan.parts_eq]
    decide +kernel
  have hone : Scan.relative "oid.cn=x".toList = .ok (⟨[⟨"oid.cn", [0x78]⟩], "oid.cn=x"⟩, []) := by
    rw [Scan.relative, Scan.parts_eq]
    decide +kernel
  have hempty := parse_of_relatives (by decide) (Scan.relatives_of_relative hquotes rfl) none
  have hd := parse_of_relatives (by decide) (Scan.relatives_of_relative htwo rfl) none
  have hd' := parse_of_relatives (by decide) (Scan.relatives_of_relative hone rfl) none
  have hnormalized : (Dn.mk "oid.oid.cn=x"
      [⟨[⟨"oid.oid.cn", [0x78]⟩], "oid.oid.cn=x", none⟩]).normalized = "oid.cn=x" := by
    decide +kernel
  have hnormalized' : (Dn.mk "oid.cn=x"
      [⟨[⟨"oid.cn", [0x78]⟩], "oid.cn=x", none⟩]).normalized = "cn=x" := by
    decide +kernel
  refine ⟨⟨_, hempty, ?_, ?_⟩, ?_, ⟨_, _, hd, hnormalized, hd', ?_⟩, ?_, ?_⟩
  · decide +kernel
  · decide +kernel
  · rintro ⟨d, hread⟩
    rw [parse, Scan.distinguishedName, show Scan.skipSpaces "cn=".toList = "cn=".toList from rfl,
      hnothing] at hread
    cases hread
  · show (_ == _) = false
    exact (congrArg₂ (· == ·) hnormalized' hnormalized).trans (by decide)
  · rw [normalize, hd]
    exact congrArg Except.ok hnormalized
  · rw [normalize, hd']
    exact congrArg Except.ok hnormalized'

end Dn
end Ldap
