import Ldap.Proofs.Dn.Order
import Ldap.Proofs.Text.Lowercase
import Mathlib

/-!
# Normal forms of normal forms

The normalized text of a relative name is what is written for components of its own: plain names,
and values in lower case with single spaces between words (`Rdn.normalized_eq_render`). The normal
form of such a value is the value again; that of such a name is not always the name again, since a
prefix `oid.` is taken off once. `Char.toLower_toLower_eq_toLower` comes with no smaller part of
Mathlib than the whole.
-/

namespace Ldap

/-! ## Words -/

section Pieces

variable {sep c : Char} {xs : List (List Char)} {cs w : List Char}

/-- A sign of joined texts is the separator or a sign of one of them. -/
theorem Text.mem_of_mem_intercalate (h : c ∈ [sep].intercalate xs) :
    c = sep ∨ ∃ x ∈ xs, c ∈ x := by
  cases xs with
  | nil => cases h
  | cons x xs =>
    rw [intercalate_cons, List.mem_append, List.mem_flatMap] at h
    rcases h with h | ⟨y, hy, hc⟩
    · exact .inr ⟨x, List.mem_cons_self, h⟩
    · exact (List.mem_cons.1 hc).imp_right fun hc => ⟨y, List.mem_cons_of_mem x hy, hc⟩

theorem Text.mem_intercalate_of_mem (hw : w ∈ xs) (hc : c ∈ w) : c ∈ [sep].intercalate xs := by
  cases xs with
  | nil => cases hw
  | cons x xs =>
    rw [intercalate_cons, List.mem_append, List.mem_flatMap]
    rcases List.mem_cons.1 hw with rfl | hw
    · exact .inl hc
    · exact .inr ⟨w, hw, List.mem_cons_of_mem sep hc⟩

/-- A sign of a piece is a sign of the whole. -/
theorem Text.mem_of_mem_splitOn (hw : w ∈ cs.splitOn sep) (hc : c ∈ w) : c ∈ cs := by
  have hjoin : [sep].intercalate (cs.splitOn sep) = cs := List.intercalate_splitOn sep
  exact hjoin ▸ mem_intercalate_of_mem hw hc

/-- A character is in none of the pieces between which it stands. -/
theorem Text.not_mem_of_mem_splitOn (hw : w ∈ cs.splitOn sep) : sep ∉ w := by
  induction cs generalizing w with
  | nil => simp_all
  | cons c cs ih =>
    rw [List.splitOn, List.splitOnP_cons_eq_if_modifyHead] at hw
    split at hw
    · rcases List.mem_cons.1 hw with rfl | hw
      · exact List.not_mem_nil
      · exact ih hw
    · next hc =>
      -- the first piece goes on by the character
      obtain ⟨head, tail, hsplit⟩ := List.exists_cons_of_ne_nil (List.splitOnP_ne_nil (· == sep) cs)
      rw [List.splitOn, hsplit] at ih
      rw [hsplit, List.modifyHead_cons] at hw
      rcases List.mem_cons.1 hw with rfl | hw
      · have hne : sep ≠ c := fun heq => hc (by simp [heq])
        simpa [hne] using ih List.mem_cons_self
      · exact ih (List.mem_cons_of_mem head hw)

end Pieces

namespace Value

/-- A word is not empty and has no space. -/
theorem word_of_mem_words {cs w : List Char} (hw : w ∈ words cs) : w ≠ [] ∧ ' ' ∉ w := by
  obtain ⟨hsplit, hne⟩ := List.mem_filter.1 hw
  exact ⟨by simpa using hne, Text.not_mem_of_mem_splitOn hsplit⟩

/-- The words of words with spaces between them. -/
theorem words_intercalate {ws : List (List Char)} (hws : ∀ w ∈ ws, w ≠ [] ∧ ' ' ∉ w) :
    words ([' '].intercalate ws) = ws := by
  by_cases hne : ws = []
  · subst hne
    rfl
  · rw [words, List.splitOn_intercalate ' ' (fun w hw => (hws w hw).2) hne, List.filter_eq_self]
    exact fun w hw => by simpa using (hws w hw).1

/-- What is left of a text is its words with one space between them, or one space if it has none. -/
theorem collapse_cases (cs : List Char) :
    (words cs = [] ∧ collapse cs = if cs.isEmpty then [] else [' ']) ∨
      (words cs ≠ [] ∧ collapse cs = [' '].intercalate (words cs)) := by
  unfold collapse
  split
  · next hnil => exact .inl ⟨hnil, rfl⟩
  · next hne => exact .inr ⟨hne, rfl⟩

/-- Single spaces between words stay single. -/
theorem collapse_collapse (cs : List Char) : collapse (collapse cs) = collapse cs := by
  rcases collapse_cases cs with ⟨-, heq⟩ | ⟨hne, heq⟩
  · rw [heq]
    split <;> rfl
  · have hwords : words ([' '].intercalate (words cs)) = words cs :=
      words_intercalate fun w hw => word_of_mem_words hw
    rcases collapse_cases (collapse cs) with ⟨hnil, -⟩ | ⟨-, heq'⟩
    · rw [heq, hwords] at hnil
      exact absurd hnil hne
    · rw [heq', heq, hwords]

/-- A text that is not empty does not become so. -/
theorem collapse_eq_nil_iff {cs : List Char} : collapse cs = [] ↔ cs = [] := by
  refine ⟨fun h => ?_, ?_⟩
  case refine_2 =>
    rintro rfl
    rfl
  rcases collapse_cases cs with ⟨-, heq⟩ | ⟨hne, heq⟩
  · rw [heq] at h
    split at h
    · next hempty => exact List.isEmpty_iff.1 hempty
    · cases h
  · obtain ⟨w, ws, hws⟩ := List.exists_cons_of_ne_nil hne
    have hw := (word_of_mem_words (hws ▸ List.mem_cons_self : w ∈ words cs)).1
    rw [heq, hws, Text.intercalate_cons, List.append_eq_nil_iff] at h
    exact absurd h.1 hw

theorem mem_collapse {cs : List Char} {c : Char} (hc : c ∈ collapse cs) : c = ' ' ∨ c ∈ cs := by
  rcases collapse_cases cs with ⟨-, heq⟩ | ⟨-, heq⟩
  · rw [heq] at hc
    split at hc
    · cases hc
    · exact .inl (List.mem_singleton.1 hc)
  · rw [heq] at hc
    rcases Text.mem_of_mem_intercalate hc with rfl | ⟨w, hw, hc⟩
    · exact .inl rfl
    · exact .inr (Text.mem_of_mem_splitOn (List.mem_of_mem_filter hw) hc)

/-! ## Values -/

/-- A text in the form in which values are compared. -/
def fold (caseExact : Bool) (cs : List Char) : List Char :=
  collapse (if caseExact then cs else Text.lowercase cs)

/-- The form in which values are compared stays the same when it is taken again. -/
theorem fold_fold (caseExact : Bool) (cs : List Char) :
    fold caseExact (fold caseExact cs) = fold caseExact cs := by
  cases caseExact with
  | true => exact collapse_collapse cs
  | false =>
    have hlower : Text.lowercase (collapse (Text.lowercase cs)) = collapse (Text.lowercase cs) := by
      refine Text.lowercase_eq_self fun c hc => ?_
      rcases mem_collapse hc with rfl | hc
      · exact Text.lowered_of_ascii (by decide) (by decide)
      · exact Text.lowered_of_mem_lowercase hc
    show collapse (Text.lowercase (collapse (Text.lowercase cs))) = _
    rw [hlower, collapse_collapse]
    rfl

/-- Nothing is folded to an empty text but the empty text. -/
theorem fold_eq_nil_iff {caseExact : Bool} {cs : List Char} : fold caseExact cs = [] ↔ cs = [] := by
  rw [fold, collapse_eq_nil_iff]
  cases caseExact with
  | true => rfl
  | false => exact Text.lowercase_eq_nil_iff

/-- The bytes that are written for a value in normal form. -/
def canonical (caseExact : Bool) (bytes : List UInt8) : List UInt8 :=
  match Text.Utf8.decode? bytes with
  | some s => Text.Utf8.encode (String.ofList (fold caseExact s.toList))
  | none => bytes

/-- The canonical bytes of a text are those of the folded text; bytes that are no text stay so. -/
theorem decode?_canonical (caseExact : Bool) (bytes : List UInt8) :
    Text.Utf8.decode? (canonical caseExact bytes) =
      (Text.Utf8.decode? bytes).map fun s => String.ofList (fold caseExact s.toList) := by
  unfold canonical
  split
  · next s hs => rw [hs, Option.map_some, Text.Utf8.decode?_eq_some_iff]
  · next hnone => rw [hnone, Option.map_none]

theorem normalize_eq_escape (caseExact : Bool) (bytes : List UInt8) :
    normalize caseExact bytes = escape .full (canonical caseExact bytes) := by
  rw [normalize, escape, decode?_canonical]
  cases hs : Text.Utf8.decode? bytes with
  | none => rw [Option.map_none, canonical, hs]
  | some s =>
    rw [Option.map_some]
    dsimp only
    rw [String.toList_ofList]
    rfl

/-- What is canonical stays as it is. -/
theorem canonical_canonical (caseExact : Bool) (bytes : List UInt8) :
    canonical caseExact (canonical caseExact bytes) = canonical caseExact bytes := by
  rw [canonical, decode?_canonical]
  cases hs : Text.Utf8.decode? bytes with
  | none => rfl
  | some s =>
    rw [Option.map_some, canonical, hs]
    dsimp only
    rw [String.toList_ofList, fold_fold]

theorem canonical_eq_nil_iff {caseExact : Bool} {bytes : List UInt8} :
    canonical caseExact bytes = [] ↔ bytes = [] := by
  have hencode (s : String) : Text.Utf8.encode s = [] ↔ s.toList = [] := by
    rw [Text.Utf8.encode_eq_flatMap, List.flatMap_eq_nil_iff, List.eq_nil_iff_forall_not_mem]
    refine forall₂_congr fun c _ => iff_false_intro fun h => ?_
    have hlength := congrArg List.length h
    have hpos := Char.utf8Size_pos c
    simp only [String.length_utf8EncodeChar, List.length_nil] at hlength
    omega
  cases hs : Text.Utf8.decode? bytes with
  | none => rw [canonical, hs]
  | some s =>
    rw [canonical, hs, ← Text.Utf8.decode?_eq_some_iff.1 hs]
    dsimp only
    rw [hencode, hencode, String.toList_ofList, fold_eq_nil_iff]

/-- A value that can be written in a name can be in its canonical form too. -/
theorem Writable.canonical {bytes : List UInt8} (h : Writable bytes) (caseExact : Bool) :
    Writable (canonical caseExact bytes) := by
  rw [Writable, decode?_canonical]
  cases hs : Text.Utf8.decode? bytes with
  | none =>
    refine .inr ?_
    rw [Value.canonical, hs]
    exact h.resolve_left (not_not.2 hs)
  | some s => exact .inl (by simp)

end Value

/-! ## Names -/

/-- A plain name is the name in lower case, or what is left of it without four characters. -/
theorem plainName_cases (name : String) :
    (4 ≤ name.toList.length ∧ (plainName name).toList = (name.toList.drop 4).map Char.toLower) ∨
      (plainName name).toList = name.toList.map Char.toLower := by
  simp only [plainName, Text.asciiLower]
  split
  · next hprefix =>
    have hlength := congrArg List.length hprefix
    simp only [List.length_map, List.length_take, List.length_cons, List.length_nil] at hlength
    exact .inl ⟨by omega, by rw [String.toList_ofList, String.toList_ofList]⟩
  · exact .inr String.toList_ofList

/-- A name gets no longer by becoming plain. -/
theorem length_plainName_le (name : String) :
    (plainName name).toList.length ≤ name.toList.length := by
  rcases plainName_cases name with ⟨-, h⟩ | h <;> simp [h]

/-- A plain name from which nothing is taken off is a plain name for itself. -/
theorem plainName_eq_self_of_length {name : String}
    (h : (plainName (plainName name)).toList.length = (plainName name).toList.length) :
    plainName (plainName name) = plainName name := by
  have hlower : (plainName name).toList.map Char.toLower = (plainName name).toList := by
    rcases plainName_cases name with ⟨-, h⟩ | h <;> simp [h, Function.comp_def]
  rcases plainName_cases (plainName name) with ⟨hle, heq⟩ | heq
  · rw [heq, List.length_map, List.length_drop] at h
    omega
  · exact String.toList_injective (heq.trans hlower)

namespace Rdn

/-- The component that is written for a component in normal form. -/
def canonicalPart (c : Component) : Component :=
  ⟨plainName c.name, Value.canonical false c.value⟩

/-- A component as a name and a value as it is written. -/
def writtenPart (c : Component) : String × String :=
  (c.name, String.ofList (Value.escape .full c.value))

/-- What is written for the canonical form of a component is its normal component. -/
theorem writtenPart_canonicalPart (c : Component) :
    writtenPart (canonicalPart c) = normalComponent none c := by
  simp only [writtenPart, canonicalPart, ← Value.normalize_eq_escape]
  rfl

/-- The components that are written for the normal form of a relative name. -/
def canonicalParts (r : Rdn) : List Component :=
  (r.components.map canonicalPart).mergeSort fun a b =>
    (compareComponents (writtenPart a) (writtenPart b)).isLE

theorem canonicalParts_perm (r : Rdn) :
    r.canonicalParts.Perm (r.components.map canonicalPart) :=
  List.mergeSort_perm _ _

theorem map_writtenPart_canonicalParts {r : Rdn} (h : r.schema = none) :
    r.canonicalParts.map writtenPart = r.normalComponents := by
  rw [canonicalParts, List.map_mergeSort (s := fun a b => (compareComponents a b).isLE)
    fun _ _ _ _ => rfl, List.map_map, normalComponents, h]
  congr 1
  exact List.map_congr_left fun c _ => writtenPart_canonicalPart c

/-- The normalized text of a relative name is what is written for its canonical components. -/
theorem normalized_eq_render {r : Rdn} (h : r.schema = none) :
    r.normalized = render .full r.canonicalParts := by
  rw [normalized, render, ← map_writtenPart_canonicalParts h, List.map_map]
  rfl

/-! ## Normal forms of canonical components -/

/-- The components of a relative name without a schema in normal form, sorted. -/
def sortNormal (cs : List Component) : List (String × String) :=
  (cs.map (normalComponent none)).mergeSort fun a b => (compareComponents a b).isLE

/-- Without a schema, the normal components are those of the components alone. -/
theorem normalComponents_eq_sortNormal {r : Rdn} (h : r.schema = none) :
    r.normalComponents = sortNormal r.components := by
  rw [normalComponents, h]
  rfl

theorem fst_normalComponent (c : Component) : (normalComponent none c).1 = plainName c.name :=
  rfl

/-- The value of a canonical component is normal already; of its name a second prefix may be taken
off. -/
theorem normalComponent_canonicalPart (c : Component) :
    normalComponent none (canonicalPart c) =
      (plainName (plainName c.name), (normalComponent none c).2) := by
  have hvalue : Value.normalize false (Value.canonical false c.value) =
      Value.normalize false c.value := by
    rw [Value.normalize_eq_escape, Value.normalize_eq_escape, Value.canonical_canonical]
  exact Prod.ext rfl (congrArg String.ofList hvalue)

/-- If no summand is less than another and the sums are equal, the summands are. -/
theorem eq_of_sum_map_eq {α : Type} {f g : α → Nat} (hle : ∀ a, f a ≤ g a) {as : List α}
    (h : (as.map f).sum = (as.map g).sum) : ∀ a ∈ as, f a = g a := by
  intro a ha
  refine (hle a).eq_of_not_lt fun hlt => ?_
  exact (List.sum_lt_sum f g (fun b _ => hle b) ⟨a, ha, hlt⟩).ne h

/-- Names that get no longer are the same names, in some order, only if none gets shorter. -/
theorem plainName_eq_self_of_perm {names : List String}
    (h : (names.map fun name => plainName (plainName name)).Perm (names.map plainName)) :
    ∀ name ∈ names, plainName (plainName name) = plainName name := by
  have hlengths := (h.map fun name => name.toList.length).sum_eq
  simp only [List.map_map, Function.comp_def] at hlengths
  have hsame := eq_of_sum_map_eq (f := fun name => (plainName (plainName name)).toList.length)
    (g := fun name => (plainName name).toList.length) (fun name => length_plainName_le _) hlengths
  exact fun name hname => plainName_eq_self_of_length (hsame name hname)

/-- The normal form of the canonical components is that of the components exactly if from no name
more can be taken off. -/
theorem sortNormal_canonicalParts_iff {r : Rdn} :
    sortNormal r.canonicalParts = sortNormal r.components ↔
      ∀ c ∈ r.components, plainName (plainName c.name) = plainName c.name := by
  have hperm := (r.canonicalParts_perm.map (normalComponent none)).congr_left
    (r.components.map (normalComponent none))
  rw [sortNormal, sortNormal, mergeSort_eq_iff_perm compareComponents, hperm, List.map_map]
  constructor
  · intro h
    have hnames := h.map Prod.fst
    simp only [List.map_map, Function.comp_def, fst_normalComponent, canonicalPart] at hnames
    have hsame : ∀ name ∈ r.components.map (·.name), plainName (plainName name) = plainName name :=
      plainName_eq_self_of_perm (by simpa only [List.map_map, Function.comp_def] using hnames)
    exact fun c hc => hsame c.name (List.mem_map_of_mem hc)
  · intro h
    refine List.Perm.of_eq (List.map_congr_left fun c hc => ?_)
    rw [Function.comp_apply, normalComponent_canonicalPart, h c hc]
    rfl

end Rdn
end Ldap
