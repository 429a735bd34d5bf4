import Ldap.Proofs.Dn.Reread

/-!
# Reading what is written for a relative name

A relative name that is made of components has two texts, one with as few escapes as can be. Either
is read as a relative name with these components exactly if each component has an attribute name and
a value that is not empty.
-/

namespace Ldap

open Scan (IsName Separated)

/-! ## Components that are whole -/

/-- A component with a name, made of letters, digits, hyphens, dots and underscores, and with a
value. -/
structure Component.Whole (c : Component) : Prop where
  name_ne : c.name ≠ ""
  name_chars : ∀ ch ∈ c.name.toList, ch.isAlphanum ∨ ch = '-' ∨ ch = '.' ∨ ch = '_'
  value_ne : c.value ≠ []

theorem Component.Whole.isName {c : Component} (h : c.Whole) : IsName c.name.toList where
  ne_nil := mt String.toList_eq_nil_iff.1 h.name_ne
  isNameChar ch hch := by simpa [Scan.isNameChar, or_assoc] using h.name_chars ch hch

theorem Component.Writable.whole {c : Component} (h : c.Writable) : c.Whole where
  name_ne := mt String.toList_eq_nil_iff.2 h.isName.ne_nil
  name_chars ch hch := by simpa [Scan.isNameChar, or_assoc] using h.isName.isNameChar ch hch
  value_ne := h.value_ne

/-! ## Relative names -/

namespace Rdn

theorem parse_eq_ok_iff {text : String} {schema : Option Schema} {r : Rdn} :
    parse text schema = .ok r ↔
      ∃ found, Scan.relativeName text = .ok found ∧ r = ofScanned schema found := by
  rw [parse]
  cases Scan.relativeName text with
  | error e => simp [Except.map]
  | ok found => simp [Except.map, eq_comm]

/-- A text that spells components is read as a relative name with these. -/
theorem parse_of_partsSpelled {text : String} {cs : List Component}
    (h : Scan.PartsSpelled text.toList cs) (schema : Option Schema) :
    parse text schema = .ok ⟨cs, text, schema⟩ := by
  have hend : Separated [] := ⟨[], [], Scan.spaces_nil, rfl, by simp⟩
  have hrelative := Scan.relative_of_relativeSpelled
    (r := ⟨cs, text⟩) ⟨h, String.ofList_toList.symm⟩ hend
  rw [List.append_nil] at hrelative
  have hread : Scan.relativeName text = .ok ⟨cs, text⟩ := by
    refine Scan.relativeName_eq_ok_iff.2 ⟨[], ?_, rfl⟩
    rw [Scan.skipSpaces_of_head (by simpa using h.head_ne [])]
    exact hrelative
  exact parse_eq_ok_iff.2 ⟨_, hread, rfl⟩

/-- A text that is written for components with names is read only if all values are there. -/
theorem writable_of_parse_render {escaping : Value.Escaping} {cs : List Component} (hne : cs ≠ [])
    (h : ∀ c ∈ cs, c.Written) {schema : Option Schema} {r : Rdn}
    (hread : parse (render escaping cs) schema = .ok r) : ∀ c ∈ cs, c.Writable := by
  obtain ⟨found, hfound, rfl⟩ := parse_eq_ok_iff.1 hread
  obtain ⟨rest, hrelative, -⟩ := Scan.relativeName_eq_ok_iff.1 hfound
  obtain ⟨x, hparts, -⟩ := bind_eq_ok_iff.1 hrelative
  have hend : Separated [] := ⟨[], [], Scan.spaces_nil, rfl, by simp⟩
  have hhead : (joined escaping cs ++ []).head? ≠ some ' ' := by
    obtain ⟨c, cs, rfl⟩ := List.exists_cons_of_ne_nil hne
    exact head_joined_ne (h c List.mem_cons_self) []
  rw [toList_render_eq, ← List.append_nil (joined escaping cs),
    Scan.skipSpaces_of_head hhead] at hparts
  exact writable_of_parts hne h hend hparts

/-- What is written for components is read as a relative name with these
exactly if each of them can be read back. -/
theorem parse_render_iff {escaping : Value.Escaping} {cs : List Component} (hne : cs ≠ [])
    (hvalues : ∀ c ∈ cs, Value.Writable c.value) {schema : Option Schema} :
    (∃ r, parse (render escaping cs) schema = .ok r ∧ r.components = cs) ↔
      ∀ c ∈ cs, c.Writable := by
  constructor
  · intro h
    rcases h with ⟨r, hread, hsame⟩
    -- the names are those that were read, so that only a value may be missing
    have hname : ∀ c ∈ cs, IsName c.name.toList := by
      rw [← hsame]
      exact (faithful_of_parse hread).isName.2
    have hwritten : ∀ c ∈ cs, c.Written := fun c hc => ⟨(hname c hc).isNameChar, hvalues c hc⟩
    exact writable_of_parse_render hne hwritten hread
  · intro h
    exact ⟨_, parse_of_partsSpelled (partsSpelled_render hne h escaping) schema, rfl⟩

/-- What is written for components that are not too long is read as a relative name with these
exactly if each of them has a name and a value. -/
theorem parse_render_iff_whole {escaping : Value.Escaping} {cs : List Component} (hne : cs ≠ [])
    (hvalues : ∀ c ∈ cs, c.value.length < 2 ^ 32) {schema : Option Schema} :
    (∃ r, parse (render escaping cs) schema = .ok r ∧ r.components = cs) ↔ ∀ c ∈ cs, c.Whole := by
  have hwritable : ∀ c ∈ cs, Value.Writable c.value := fun c hc => .inr (hvalues c hc)
  rw [parse_render_iff hne hwritable]
  exact forall₂_congr fun c hc =>
    ⟨fun h => h.whole, fun h => ⟨h.isName, h.value_ne, hwritable c hc⟩⟩

/-- The text and the minimal text of a relative name that is made of components are each read as a
relative name with these components, in their order, exactly if every name is made of letters,
digits, hyphens, dots and underscores and no name and no value is empty. -/
theorem made_read_back_iff {cs : List Component} (hne : cs ≠ [])
    (hvalues : ∀ c ∈ cs, c.value.length < 2 ^ 32) :
    ∃ r, ofComponents? cs = .ok r ∧
      ((∃ r', parse r.text none = .ok r' ∧ r'.components = cs) ↔ ∀ c ∈ cs, c.Whole) ∧
      ((∃ r', parse r.minimal none = .ok r' ∧ r'.components = cs) ↔ ∀ c ∈ cs, c.Whole) := by
  have hmade : ofComponents? cs = .ok (ofComponents cs) := by
    rw [ofComponents?, if_neg (by simpa using hne)]
  exact ⟨_, hmade, parse_render_iff_whole hne hvalues, parse_render_iff_whole hne hvalues⟩

/-- Bytes that are no text are read back next to a value of spaces with a sharp sign in front; an
empty value is not, nor a name with a space. -/
theorem made_read_back_of_bytes_and_spaces :
    (∃ r, ofComponents? [⟨"cn", [0xFF]⟩, ⟨"sn", [0x20, 0x23, 0x20]⟩] = .ok r ∧
      ∃ r', parse r.minimal none = .ok r' ∧
        r'.components = [⟨"cn", [0xFF]⟩, ⟨"sn", [0x20, 0x23, 0x20]⟩]) ∧
    (∃ r, ofComponents? [⟨"cn", []⟩] = .ok r ∧
      ¬∃ r', parse r.text none = .ok r' ∧ r'.components = [⟨"cn", []⟩]) ∧
    ∃ r, ofComponents? [⟨"c n", [0x78]⟩] = .ok r ∧
      ¬∃ r', parse r.minimal none = .ok r' ∧ r'.components = [⟨"c n", [0x78]⟩] := by
  refine ⟨?_, ?_, ?_⟩
  · obtain ⟨r, hmade, -, hminimal⟩ := made_read_back_iff
      (List.cons_ne_nil ⟨"cn", [0xFF]⟩ [⟨"sn", [0x20, 0x23, 0x20]⟩]) (by simp)
    have hcn : Component.Whole ⟨"cn", [0xFF]⟩ :=
      ⟨by decide, by simp [Char.isAlphanum, Char.isAlpha, Char.isLower], List.cons_ne_nil _ _⟩
    have hsn : Component.Whole ⟨"sn", [0x20, 0x23, 0x20]⟩ :=
      ⟨by decide, by simp [Char.isAlphanum, Char.isAlpha, Char.isLower], List.cons_ne_nil _ _⟩
    exact ⟨r, hmade, hminimal.2 (by simpa using ⟨hcn, hsn⟩)⟩
  · obtain ⟨r, hmade, htext, -⟩ := made_read_back_iff
      (List.cons_ne_nil ⟨"cn", []⟩ []) (by simp)
    exact ⟨r, hmade, fun h => (htext.1 h _ List.mem_cons_self).value_ne rfl⟩
  · obtain ⟨r, hmade, -, hminimal⟩ := made_read_back_iff
      (List.cons_ne_nil ⟨"c n", [0x78]⟩ []) (by simp)
    refine ⟨r, hmade, fun h => ?_⟩
    have hspace := (hminimal.1 h _ List.mem_cons_self).name_chars ' ' (by decide)
    exact absurd hspace (by decide)

end Rdn
end Ldap
