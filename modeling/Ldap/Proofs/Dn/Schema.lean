import Ldap.Dn.Rdn
import Ldap.Proofs.Dn.Grammar

/-!
# What a schema makes of names

A schema is built in steps: some make a name stand for another one, some mark an attribute. What a
relative name with a schema is normalized to hangs on the name that its attribute name stands for
(`Schema.identifies_iff`), and on the mark of the name that *this* one stands for
(`Schema.compares_iff`). `Schema.aliases_and_marks` says when a name and the one that it was made to
stand for are the same, when the mark of a name tells how its values are compared, and how long a
name keeps its mark.
-/

namespace Ldap

/-! ## A name with another one in its place -/

namespace Scan

/-- A value is the same under any name. -/
theorem value_rename {a c : String} {cs rest : List Char} {bytes : List UInt8}
    (h : value a cs = .ok (bytes, rest)) : value c cs = .ok (bytes, rest) := by
  cases cs with
  | nil => cases h
  | cons ch cs =>
    simp only [value] at h ⊢
    split at h
    · cases h
    · next hends => rwa [if_neg hends]

/-- A plain character other than a space and a `#` is a value. -/
theorem value_of_isPlain {name : String} {c : Char} (h : isPlain c = true)
    (hspace : c ≠ ' ') (hhash : c ≠ '#') :
    value name [c] = .ok (String.utf8EncodeChar c, []) := by
  obtain ⟨hends, -, hspecial⟩ := isPlain_iff.1 h
  have hquote : c ≠ '"' := fun heq => hspecial (by rw [heq]; rfl)
  have hend : plainValue [] = .ok ([], []) := plainValue_of_trails (trails_of_head (by simp))
  have hplain := plainValue_of_isPlain h hend (fun hboth => hspace hboth.1)
  rw [value, if_neg hends, if_neg hhash, if_neg hquote, hplain, List.append_nil]

/-- A part at the front of a text that begins with its name and an equals sign. -/
theorem part_eq_ok_iff {a : String} (ha : IsName a.toList) {cs rest : List Char} {p : Part} :
    part (a.toList ++ '=' :: cs) = .ok (p, rest) ↔
      ∃ bytes, value a (skipSpaces cs) = .ok (bytes, rest) ∧ p = ⟨a, bytes⟩ := by
  have hname : attributeName (a.toList ++ '=' :: cs) = .ok (a, '=' :: cs) :=
    attributeName_eq_ok_iff.2 ⟨_, rfl, ha, String.ofList_toList.symm, by simp⟩
  have hequals : skipSpaces ('=' :: cs) = '=' :: cs := skipSpaces_of_head (by simp)
  rw [part, skipSpaces_of_head (ha.head_ne _)]
  simp only [hname, ok_bind, hequals, bind_eq_ok_iff, Prod.exists, Except.ok.injEq, Prod.mk.injEq]
  constructor
  · rintro ⟨bytes, rest, hvalue, rfl, rfl⟩
    exact ⟨bytes, hvalue, rfl⟩
  · rintro ⟨bytes, hvalue, rfl⟩
    exact ⟨bytes, rest, hvalue, rfl, rfl⟩

/-- With another name at the front of a text, the first part has that name, and all else stays. -/
theorem parts_rename {a c : String} (ha : IsName a.toList) (hc : IsName c.toList)
    {cs rest : List Char} {ps : List Part} (h : parts (a.toList ++ '=' :: cs) = .ok (ps, rest)) :
    ∃ bytes tail, ps = ⟨a, bytes⟩ :: tail ∧
      parts (c.toList ++ '=' :: cs) = .ok (⟨c, bytes⟩ :: tail, rest) := by
  rw [parts_eq] at h
  obtain ⟨⟨p, left⟩, hpart, h⟩ := bind_eq_ok_iff.1 h
  obtain ⟨bytes, hvalue, rfl⟩ := (part_eq_ok_iff ha).1 hpart
  have hpart' := (part_eq_ok_iff hc).2 ⟨bytes, value_rename hvalue, rfl⟩
  refine ⟨bytes, ?_⟩
  rw [parts_eq, hpart', ok_bind]
  dsimp only at h ⊢
  split at h
  · split at h
    · cases h
    · next hne =>
      obtain ⟨⟨ps', rest'⟩, hparts, h⟩ := bind_eq_ok_iff.1 h
      cases h
      exact ⟨ps', rfl, by rw [if_neg hne, hparts, ok_bind]⟩
  · cases h
    exact ⟨[], rfl, rfl⟩

section Relative

variable {a c w : String} {rest : List Char} {ps : List Part} {bytes : List UInt8}

theorem skipSpaces_toList (ha : IsName a.toList) (w : String) :
    skipSpaces (a ++ "=" ++ w).toList = a.toList ++ '=' :: w.toList := by
  have htext : (a ++ "=" ++ w).toList = a.toList ++ '=' :: w.toList := by
    simp [String.toList_append]
  rw [htext]
  exact skipSpaces_of_head (ha.head_ne _)

/-- A text `name=value` is read as the parts that reach to its end. -/
theorem exists_relativeName_of_parts (ha : IsName a.toList)
    (h : parts (a.toList ++ '=' :: w.toList) = .ok (ps, rest)) (hrest : skipSpaces rest = []) :
    ∃ r, relativeName (a ++ "=" ++ w) = .ok r ∧ r.parts = ps := by
  have hread : ∃ r, relative (a.toList ++ '=' :: w.toList) = .ok (r, rest) ∧ r.parts = ps := by
    rw [relative, h]
    exact ⟨_, rfl, rfl⟩
  obtain ⟨r, hread, hps⟩ := hread
  rw [← skipSpaces_toList ha] at hread
  exact ⟨r, relativeName_eq_ok_iff.2 ⟨rest, hread, hrest⟩, hps⟩

/-- With another name in its place at the front, what is read has that name in the same place. -/
theorem relativeName_rename (ha : IsName a.toList) (hc : IsName c.toList) {r : Relative}
    (h : relativeName (a ++ "=" ++ w) = .ok r) :
    ∃ bytes tail r', r.parts = ⟨a, bytes⟩ :: tail ∧ relativeName (c ++ "=" ++ w) = .ok r' ∧
      r'.parts = ⟨c, bytes⟩ :: tail := by
  obtain ⟨rest, hread, hrest⟩ := relativeName_eq_ok_iff.1 h
  rw [skipSpaces_toList ha, relative] at hread
  obtain ⟨⟨ps, left⟩, hparts, hread⟩ := bind_eq_ok_iff.1 hread
  cases hread
  obtain ⟨bytes, tail, rfl, hparts'⟩ := parts_rename ha hc hparts
  obtain ⟨r', hr', hps'⟩ := exists_relativeName_of_parts hc hparts' hrest
  exact ⟨bytes, tail, r', rfl, hr', hps'⟩

/-- A name with a value behind it is read as one part. -/
theorem exists_relativeName_single (ha : IsName a.toList)
    (h : value a (skipSpaces w.toList) = .ok (bytes, [])) :
    ∃ r, relativeName (a ++ "=" ++ w) = .ok r ∧ r.parts = [⟨a, bytes⟩] := by
  have hpart := (part_eq_ok_iff ha).2 ⟨bytes, h, rfl⟩
  exact exists_relativeName_of_parts ha (parts_of_part hpart (by simp [skipSpaces])) rfl

end Relative

end Scan

/-! ## The steps that build a schema -/

/-- A name begins with `oid.`, in any letter case. -/
def Prefixed (name : String) : Prop :=
  (name.toList.take 4).map Char.toLower = ['o', 'i', 'd', '.']

instance (name : String) : Decidable (Prefixed name) :=
  inferInstanceAs (Decidable (_ = _))

/-- A plain name is the name in lower case unless a prefix is taken off. -/
theorem plainName_eq_asciiLower_iff {name : String} :
    plainName name = Text.asciiLower name ↔ ¬ Prefixed name := by
  unfold plainName Prefixed
  dsimp only
  split
  · next hprefixed =>
    refine iff_of_false (fun heq => ?_) (not_not.2 hprefixed)
    have hlength := congrArg (·.toList.length) heq
    have hpos := congrArg List.length hprefixed
    simp only [Text.asciiLower, String.toList_ofList, List.length_map, List.length_drop,
      List.length_take, List.length_cons, List.length_nil] at hlength hpos
    omega
  · next hno => exact iff_of_true rfl hno

namespace Schema

/-- A step in the making of a schema. -/
inductive Step where
  | withAlias (name canonical : String)
  | withCaseExact (name : String)
  deriving DecidableEq, Repr

/-- A schema after a step. -/
def apply (s : Schema) : Step → Schema
  | .withAlias name canonical => s.withAlias name canonical
  | .withCaseExact name => s.withCaseExact name

/-- A schema after some steps. -/
def build (s : Schema) (steps : List Step) : Schema :=
  steps.foldl apply s

theorem canonicalName_withAlias (s : Schema) (a c n : String) :
    (s.withAlias a c).canonicalName n =
      if plainName n = Text.asciiLower a then Text.asciiLower c else s.canonicalName n := by
  simp only [canonicalName, withAlias, List.lookup_cons]
  split
  · next heq => rw [if_pos (by simpa using heq), Option.getD_some]
  · next hne => rw [if_neg (by simpa using hne)]

theorem isCaseExact_iff {s : Schema} {n : String} :
    s.isCaseExact n = true ↔ s.canonicalName n ∈ s.caseExact := by
  rw [isCaseExact, List.contains_iff_mem]

/-- A step takes no mark away. -/
theorem caseExact_subset_apply (s : Schema) (step : Step) :
    s.caseExact ⊆ (s.apply step).caseExact := by
  cases step with
  | withAlias => exact List.Subset.refl _
  | withCaseExact => exact List.subset_cons_self _ _

/-- A step makes a name stand for another one only if it says so. -/
theorem canonicalName_apply (s : Schema) (step : Step) (n : String) :
    (s.apply step).canonicalName n = s.canonicalName n ∨
      ∃ a c, step = .withAlias a c ∧ Text.asciiLower a = plainName n ∧
        (s.apply step).canonicalName n = Text.asciiLower c := by
  cases step with
  | withAlias a c =>
    rw [apply, canonicalName_withAlias]
    split
    · next heq => exact .inr ⟨a, c, rfl, heq.symm, rfl⟩
    · exact .inl rfl
  | withCaseExact => exact .inl rfl

theorem caseExact_subset_build (s : Schema) (steps : List Step) :
    s.caseExact ⊆ (s.build steps).caseExact := by
  induction steps generalizing s with
  | nil => exact List.Subset.refl _
  | cons step steps ih => exact List.Subset.trans (s.caseExact_subset_apply step) (ih _)

/-- After some steps a name stands for the same as before, or for what one of them says. -/
theorem canonicalName_build (s : Schema) (steps : List Step) (n : String) :
    (s.build steps).canonicalName n = s.canonicalName n ∨
      ∃ a c, .withAlias a c ∈ steps ∧ Text.asciiLower a = plainName n ∧
        (s.build steps).canonicalName n = Text.asciiLower c := by
  induction steps generalizing s with
  | nil => exact .inl rfl
  | cons step steps ih =>
    rcases ih (s.apply step) with hlater | ⟨a, c, hmem, hname, hlater⟩
    · rcases s.canonicalName_apply step n with hnow | ⟨a, c, rfl, hname, hnow⟩
      · exact .inl (hlater.trans hnow)
      · exact .inr ⟨a, c, List.mem_cons_self, hname, hlater.trans hnow⟩
    · exact .inr ⟨a, c, List.mem_cons_of_mem step hmem, hname, hlater⟩

/-! ## What names with a value are normalized to -/

/-- Whatever follows them, two names make the same relative names. -/
def Identifies (s : Schema) (a c : String) : Prop :=
  ∀ w r, Rdn.parse (a ++ "=" ++ w) (some s) = .ok r →
    ∃ r', Rdn.parse (c ++ "=" ++ w) (some s) = .ok r' ∧ (r == r') = true

/-- How the values of an attribute are normalized: with or without their letter case. -/
def Compares (s : Schema) (n : String) (caseExact : Bool) : Prop :=
  ∀ w r v, Rdn.parse (n ++ "=" ++ w) (some s) = .ok r → r.components = [⟨n, v⟩] →
    r.normalized = s.canonicalName n ++ "=" ++ String.ofList (Value.normalize caseExact v)

section Parsing

variable {s : Schema} {a c n : String}

theorem parse_eq_ok_iff {text : String} {schema : Option Schema} {r : Rdn} :
    Rdn.parse text schema = .ok r ↔
      ∃ found, Scan.relativeName text = .ok found ∧ r = Rdn.ofScanned schema found := by
  rw [Rdn.parse]
  cases Scan.relativeName text with
  | error e => simp [Except.map]
  | ok found => simp [Except.map, eq_comm]

/-- A relative name of one component is normalized to the text of that component. -/
theorem normalized_single {r : Rdn} {v : List UInt8} (hschema : r.schema = some s)
    (h : r.components = [⟨n, v⟩]) :
    r.normalized = s.canonicalName n ++ "=" ++
      String.ofList (Value.normalize (s.isCaseExact (s.canonicalName n)) v) := by
  rw [Rdn.normalized, Rdn.normalComponents, h, hschema, List.map_singleton,
    List.mergeSort_singleton, List.map_singleton, String.intercalate_singleton]
  rfl

/-- Any name with a letter or digit behind it is a relative name. -/
theorem exists_parse_single (hn : Scan.IsName n.toList) {w : String} {v : List UInt8}
    (h : Scan.value n (Scan.skipSpaces w.toList) = .ok (v, [])) (s : Schema) :
    ∃ r, Rdn.parse (n ++ "=" ++ w) (some s) = .ok r ∧ r.components = [⟨n, v⟩] ∧
      r.schema = some s := by
  obtain ⟨found, hread, hparts⟩ := Scan.exists_relativeName_single hn h
  exact ⟨_, parse_eq_ok_iff.2 ⟨found, hread, rfl⟩, hparts, rfl⟩

/-- Two names make the same relative names exactly if they stand for the same name. -/
theorem identifies_iff (ha : Scan.IsName a.toList) (hc : Scan.IsName c.toList) :
    s.Identifies a c ↔ s.canonicalName a = s.canonicalName c := by
  constructor
  · intro h
    have hvalue (name : String) :
        Scan.value name (Scan.skipSpaces "1".toList) = .ok ([0x31], []) :=
      Scan.value_of_isPlain (c := '1') (by decide) (by decide) (by decide)
    have hplain (caseExact : Bool) : Value.normalize caseExact [0x31] = ['1'] := by
      cases caseExact <;> rfl
    obtain ⟨r, hr, hcomponents, hschema⟩ := exists_parse_single ha (hvalue a) s
    obtain ⟨r', hr', hsame⟩ := h "1" r hr
    obtain ⟨found, hfound, hcomponents', hschema'⟩ := exists_parse_single hc (hvalue c) s
    obtain rfl := Except.ok.inj (hr'.symm.trans hfound)
    have htexts : r.normalized = r'.normalized := by simpa [BEq.beq] using hsame
    rw [normalized_single hschema hcomponents, normalized_single hschema' hcomponents', hplain,
      hplain, String.append_left_inj, String.append_left_inj] at htexts
    exact htexts
  · intro heq w r hr
    obtain ⟨found, hfound, rfl⟩ := parse_eq_ok_iff.1 hr
    obtain ⟨bytes, tail, found', hparts, hfound', hparts'⟩ :=
      Scan.relativeName_rename ha hc hfound
    refine ⟨_, parse_eq_ok_iff.2 ⟨found', hfound', rfl⟩, ?_⟩
    have hcomponents : (found.parts.map (Rdn.normalComponent (some s))) =
        found'.parts.map (Rdn.normalComponent (some s)) := by
      rw [hparts, hparts', List.map_cons, List.map_cons, Rdn.normalComponent, Rdn.normalComponent]
      simp only [Rdn.canonicalName, heq]
    have hnormal : (Rdn.ofScanned (some s) found).normalComponents =
        (Rdn.ofScanned (some s) found').normalComponents := by
      rw [Rdn.normalComponents, Rdn.normalComponents]
      exact congrArg (List.mergeSort · _) hcomponents
    show ((Rdn.ofScanned (some s) found).normalized ==
      (Rdn.ofScanned (some s) found').normalized) = true
    rw [beq_iff_eq, Rdn.normalized, Rdn.normalized, hnormal]

/-- The values of an attribute are normalized with their letter case exactly if the name that its
name stands for is, once more looked up, a marked one. -/
theorem compares_iff (hn : Scan.IsName n.toList) {caseExact : Bool} :
    s.Compares n caseExact ↔ s.isCaseExact (s.canonicalName n) = caseExact := by
  constructor
  · intro h
    have hvalue : Scan.value n (Scan.skipSpaces "A".toList) = .ok ([0x41], []) :=
      Scan.value_of_isPlain (c := 'A') (by decide) (by decide) (by decide)
    obtain ⟨r, hr, hcomponents, hschema⟩ := exists_parse_single hn hvalue s
    have htexts := h "A" r _ hr hcomponents
    rw [normalized_single hschema hcomponents, String.append_right_inj] at htexts
    have hletter (b : Bool) : Value.normalize b [0x41] = [bif b then 'A' else 'a'] := by
      cases b <;> rfl
    rw [hletter, hletter] at htexts
    revert htexts
    cases s.isCaseExact (s.canonicalName n) <;> cases caseExact <;> decide
  · intro heq w r v hr hcomponents
    obtain ⟨found, hfound, rfl⟩ := parse_eq_ok_iff.1 hr
    rw [normalized_single rfl hcomponents, heq]

end Parsing

/-! ## What the steps promise -/

variable {s : Schema} {a c n : String}

/-- An alias that does not begin with `oid.` is the same as the name that it is made to stand for,
unless that one is made to stand for yet another. -/
theorem identifies_withAlias_iff (ha : Scan.IsName a.toList) (hc : Scan.IsName c.toList)
    (hplain : ¬ Prefixed a) :
    (s.withAlias a c).Identifies a c ↔
      plainName c = Text.asciiLower a ∨ s.canonicalName c = Text.asciiLower c := by
  rw [identifies_iff ha hc, canonicalName_withAlias, canonicalName_withAlias,
    if_pos (plainName_eq_asciiLower_iff.2 hplain)]
  split
  · next hself => exact iff_of_true rfl (.inl hself)
  · next hself => rw [eq_comm, or_iff_right hself]

/-- An alias that begins with `oid.` is not found: the name stands for what it stood for. -/
theorem identifies_withAlias_iff_of_prefixed (ha : Scan.IsName a.toList) (hc : Scan.IsName c.toList)
    (hprefixed : Prefixed a) :
    (s.withAlias a c).Identifies a c ↔ (s.withAlias a c).canonicalName c = s.canonicalName a := by
  rw [identifies_iff ha hc, eq_comm, canonicalName_withAlias s a c a,
    if_neg (mt plainName_eq_asciiLower_iff.1 (not_not.2 hprefixed))]

theorem compares_of_canonicalName (hn : Scan.IsName n.toList)
    (h : s.canonicalName (s.canonicalName n) = s.canonicalName n) :
    s.Compares n (s.isCaseExact n) := by
  rw [compares_iff hn, isCaseExact, isCaseExact, h]

/-- What stands for a marked name is marked. -/
theorem isCaseExact_build_of_canonicalName {later : List Step} {m : String}
    (h : ((s.withCaseExact n).build later).canonicalName m = s.canonicalName n) :
    ((s.withCaseExact n).build later).isCaseExact m = true := by
  rw [isCaseExact_iff, h]
  exact caseExact_subset_build _ later List.mem_cons_self

/-- A name loses its mark only by a later step that makes it stand for a name without one. -/
theorem isCaseExact_build_eq_false_iff {later : List Step} :
    ((s.withCaseExact n).build later).isCaseExact n = false ↔
      ∃ a c, .withAlias a c ∈ later ∧ Text.asciiLower a = plainName n ∧
        ((s.withCaseExact n).build later).canonicalName n = Text.asciiLower c ∧
        Text.asciiLower c ∉ ((s.withCaseExact n).build later).caseExact := by
  rw [Bool.eq_false_iff, ne_eq]
  constructor
  · intro hlost
    rcases canonicalName_build (s.withCaseExact n) later n with hsame | ⟨a, c, hmem, hname, hnow⟩
    · exact absurd (isCaseExact_build_of_canonicalName hsame) hlost
    · exact ⟨a, c, hmem, hname, hnow, fun hmark => hlost (isCaseExact_iff.2 (hnow ▸ hmark))⟩
  · rintro ⟨a, c, -, -, hnow, hmark⟩ hexact
    exact hmark (hnow ▸ isCaseExact_iff.1 hexact)

/-- What holds of every schema, and so of every one that is built in steps. Right after a name
without the prefix `oid.` is made to stand for another one, the two make the same relative names
exactly if the other one is that name itself or stands for nothing else; with the prefix, exactly if
they stood for the same already. The values of an attribute are normalized with their letter case
exactly if what its name stands for is marked, where that name is looked up once more; this is its
own mark if nothing comes of looking twice. A marked name stays marked, and so does what comes to
stand for the same name, until a later step makes the name stand for one that is not marked. -/
theorem aliases_and_marks (s : Schema) (ha : Scan.IsName a.toList) (hc : Scan.IsName c.toList)
    (hn : Scan.IsName n.toList) (later : List Step) :
    (¬ Prefixed a → ((s.withAlias a c).Identifies a c ↔
      plainName c = Text.asciiLower a ∨ s.canonicalName c = Text.asciiLower c)) ∧
    (Prefixed a → ((s.withAlias a c).Identifies a c ↔
      (s.withAlias a c).canonicalName c = s.canonicalName a)) ∧
    (∀ caseExact, s.Compares n caseExact ↔ s.isCaseExact (s.canonicalName n) = caseExact) ∧
    (s.canonicalName (s.canonicalName n) = s.canonicalName n → s.Compares n (s.isCaseExact n)) ∧
    (∀ m, ((s.withCaseExact n).build later).canonicalName m = s.canonicalName n →
      ((s.withCaseExact n).build later).isCaseExact m = true) ∧
    (((s.withCaseExact n).build later).isCaseExact n = false ↔
      ∃ a c, .withAlias a c ∈ later ∧ Text.asciiLower a = plainName n ∧
        ((s.withCaseExact n).build later).canonicalName n = Text.asciiLower c ∧
        Text.asciiLower c ∉ ((s.withCaseExact n).build later).caseExact) :=
  ⟨identifies_withAlias_iff ha hc, identifies_withAlias_iff_of_prefixed ha hc,
    fun _ => compares_iff hn, compares_of_canonicalName hn,
    fun _ => isCaseExact_build_of_canonicalName, isCaseExact_build_eq_false_iff⟩

theorem isName_of_all {name : String} (hne : name ≠ "")
    (h : name.toList.all Scan.isNameChar = true) : Scan.IsName name.toList :=
  ⟨mt (fun hnil => String.toList_injective hnil) hne, List.all_eq_true.1 h⟩

/-- A marked attribute with two names, and one more name for another one. -/
theorem aliases_and_marks_of_user_and_common_name :
    let s := empty.build [.withAlias "userId" "uid", .withCaseExact "UID"]
    (s.withAlias "commonName" "cn").Identifies "commonName" "cn" ∧
      s.Compares "USERID" true ∧
      ((s.withCaseExact "USERID").build [.withAlias "surname" "sn"]).isCaseExact "uid" = true := by
  intro s
  obtain ⟨hidentifies, -, -, hcompares, hmarked, -⟩ := aliases_and_marks (a := "commonName")
    (c := "cn") (n := "USERID") s (isName_of_all (by decide) (by decide))
    (isName_of_all (by decide) (by decide)) (isName_of_all (by decide) (by decide))
    [.withAlias "surname" "sn"]
  have hexact : s.isCaseExact "USERID" = true := by decide
  exact ⟨(hidentifies (by decide)).2 (.inr (by decide)), hexact ▸ hcompares (by decide),
    hmarked "uid" (by decide)⟩

/-- An alias with the prefix `oid.` is not found, and neither is what the other name stands for; an
attribute whose name is marked is compared without letter case, if what it stands for stands for a
third name; and a name that is marked first and made to stand for another one later loses its
mark. -/
theorem not_identified_and_not_compared_and_not_marked :
    ¬ (empty.build [.withAlias "oid.2.5.4.3" "cn"]).Identifies "oid.2.5.4.3" "cn" ∧
    ¬ (empty.build [.withAlias "cn" "name", .withAlias "a" "cn"]).Identifies "a" "cn" ∧
    (∃ s, s = empty.build [.withAlias "a" "b", .withAlias "b" "c", .withCaseExact "a"] ∧
      s.isCaseExact "a" = true ∧ ¬ s.Compares "a" true) ∧
    (empty.build [.withCaseExact "uid", .withAlias "uid" "userid"]).isCaseExact "uid" = false := by
  have ha : Scan.IsName "a".toList := isName_of_all (by decide) (by decide)
  have hcn : Scan.IsName "cn".toList := isName_of_all (by decide) (by decide)
  have hprefixed : Scan.IsName "oid.2.5.4.3".toList := isName_of_all (by decide) (by decide)
  rw [identifies_iff hprefixed hcn, identifies_iff ha hcn]
  refine ⟨by decide, by decide, ⟨_, rfl, by decide, ?_⟩, by decide⟩
  rw [compares_iff ha]
  decide

end Schema
end Ldap
