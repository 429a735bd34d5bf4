import Ldap.Filter.Parser
import Ldap.Proofs.Ber.Faithful
import Ldap.Proofs.Text.Escape
import Mathlib.Tactic

/-!
# The grammar of filter texts

`Value`, `ItemSpelled` and `GroupSpelled` say which texts spell which values, assertions and
filters, part for part and without a reader. `scan_eq_ok_iff` says that a filter text is accepted
exactly if it is spelled so, and that what is read is what it spells.
-/

namespace Ldap

/-- An attribute description or the name of a matching rule. -/
structure Description (s : String) : Prop where
  ne_empty : s ≠ ""
  chars : ∀ c ∈ s.toList, Filter.isDescriptionChar c = true

namespace Filter

open Text (Escape)

/-! ## Values -/

/-- Whether a character stands for itself in a value only behind a backslash. -/
def isEscapable (c : Char) : Bool :=
  c = '*' || c = '(' || c = ')' || c = '\\'

/-- A text spells a value: the bytes before its first star, and those after each star. -/
inductive Value : List Char → List UInt8 → List (List UInt8) → Prop
  | nil : Value [] [] []
  | plain {c : Char} {cs : List Char} {head : List UInt8} {later : List (List UInt8)}
    (hc : isEscapable c = false) (h : Value cs head later) :
    Value (c :: cs) (String.utf8EncodeChar c ++ head) later
  | escape {spelled cs : List Char} {b : UInt8} {head : List UInt8} {later : List (List UInt8)}
    (hb : Escape isEscapable spelled b) (h : Value cs head later) :
    Value ('\\' :: (spelled ++ cs)) (b :: head) later
  | star {cs : List Char} {head : List UInt8} {later : List (List UInt8)}
    (h : Value cs head later) :
    Value ('*' :: cs) [] (head :: later)

/-- What follows a value: nothing, or the parenthesis that closes its group. -/
def Ends (inGroup : Bool) (rest : List Char) : Prop :=
  rest = [] ∨ inGroup = true ∧ ∃ tail, rest = ')' :: tail

theorem pair?_of_isEscapable {c d : Char} (hc : isEscapable c = true) :
    Text.Hex.pair? c d = none := by
  simp only [isEscapable, Bool.or_eq_true, decide_eq_true_eq] at hc
  rcases hc with ((rfl | rfl) | rfl) | rfl <;> rfl

theorem escaped_of_isEscapable {c : Char} (hc : isEscapable c = true) (rest : List Char) :
    escaped (c :: rest) = some (UInt8.ofNat c.toNat, rest) := by
  cases rest with
  | nil => exact if_pos hc
  | cons d rest =>
    simp only [escaped]
    rw [pair?_of_isEscapable hc]
    exact if_pos hc

theorem escaped_eq_some_iff {cs rest : List Char} {b : UInt8} :
    escaped cs = some (b, rest) ↔
      ∃ spelled, Escape isEscapable spelled b ∧ cs = spelled ++ rest := by
  constructor
  · intro h
    match cs, h with
    | [c], h =>
      simp only [escaped] at h
      split at h
      · next hc =>
        cases h
        exact ⟨[c], .itself hc, rfl⟩
      · cases h
    | c :: d :: tail, h =>
      simp only [escaped] at h
      split at h
      · next b' hb =>
        cases h
        exact ⟨[c, d], .digits hb, rfl⟩
      · split at h
        · next hc =>
          cases h
          exact ⟨[c], .itself hc, rfl⟩
        · cases h
  · intro h
    rcases h with ⟨spelled, hspelled, rfl⟩
    cases hspelled with
    | digits hb => simp [escaped, hb]
    | itself hc => exact escaped_of_isEscapable hc rest

theorem pattern_of_ends {inGroup : Bool} {rest : List Char} (h : Ends inGroup rest) :
    pattern inGroup rest = .ok (⟨[], []⟩, rest) := by
  rcases h with rfl | ⟨rfl, tail, rfl⟩
  · rw [pattern]
  · rw [pattern]
    rfl

/-- What is read as a value spells its bytes and ends where a value may end. -/
theorem value_of_pattern {inGroup : Bool} {cs rest : List Char} {p : Pattern}
    (h : pattern inGroup cs = .ok (p, rest)) :
    ∃ front, cs = front ++ rest ∧ Value front p.head (p.later.map Prod.snd) ∧
      Ends inGroup rest := by
  fun_induction pattern inGroup cs generalizing p rest with
  | case1 =>
    cases h
    exact ⟨[], rfl, .nil, .inl rfl⟩
  | case2 c tail hclose =>
    cases h
    simp only [Bool.and_eq_true, decide_eq_true_eq] at hclose
    rcases hclose with ⟨rfl, hgroup⟩
    exact ⟨[], rfl, .nil, .inr ⟨hgroup, tail, rfl⟩⟩
  | case3 => cases h
  | case4 => cases h
  | case5 => cases h
  | case6 tail b after hescaped _ p' left hpattern _ _ ih =>
    cases h
    obtain ⟨front, rfl, hvalue, hends⟩ := ih hpattern
    obtain ⟨spelled, hspelled, rfl⟩ := escaped_eq_some_iff.1 hescaped
    exact ⟨_, by simp, .escape hspelled hvalue, hends⟩
  | case7 => cases h
  | case8 tail p' left hpattern _ _ _ ih =>
    cases h
    obtain ⟨front, rfl, hvalue, hends⟩ := ih hpattern
    exact ⟨_, rfl, .star hvalue, hends⟩
  | case9 c tail hclose hparen hescape p' left hpattern hstar ih =>
    cases h
    obtain ⟨front, rfl, hvalue, hends⟩ := ih hpattern
    refine ⟨c :: front, rfl, .plain ?_ hvalue, hends⟩
    simp only [Bool.or_eq_true, decide_eq_true_eq, not_or] at hparen
    simp [isEscapable, hstar, hparen, hescape]

/-- A text that spells a value is read so. -/
theorem exists_pattern {inGroup : Bool} {front rest : List Char} {head : List UInt8}
    {later : List (List UInt8)} (h : Value front head later) (hrest : Ends inGroup rest) :
    ∃ stars, pattern inGroup (front ++ rest) = .ok (⟨head, stars⟩, rest) ∧
      stars.map Prod.snd = later := by
  induction h with
  | nil => exact ⟨[], pattern_of_ends hrest, rfl⟩
  | plain hc h ih =>
    obtain ⟨stars, hpattern, hstars⟩ := ih
    simp only [isEscapable, Bool.or_eq_false_iff, decide_eq_false_iff_not] at hc
    refine ⟨stars, ?_, hstars⟩
    rw [List.cons_append, pattern]
    simp [hc, hpattern, Pattern.prepend]
  | @escape spelled cs b head later hb h ih =>
    obtain ⟨stars, hpattern, hstars⟩ := ih
    have hescaped : escaped (spelled ++ (cs ++ rest)) = some (b, cs ++ rest) :=
      escaped_eq_some_iff.2 ⟨spelled, hb, rfl⟩
    refine ⟨stars, ?_, hstars⟩
    rw [List.cons_append, List.append_assoc, pattern, if_neg (by simp), if_neg (by simp),
      if_pos rfl]
    split
    · next hnone =>
      rw [hescaped] at hnone
      cases hnone
    · next hsome =>
      rw [hescaped] at hsome
      cases hsome
      rw [hpattern]
      rfl
  | @star cs head later h ih =>
    obtain ⟨stars, hpattern, hstars⟩ := ih
    refine ⟨('*' :: (cs ++ rest), head) :: stars, ?_, by rw [List.map_cons, hstars]⟩
    rw [List.cons_append, pattern]
    simp [hpattern]

theorem plainValue_eq_ok_iff {inGroup : Bool} {cs rest : List Char} {bytes : List UInt8} :
    plainValue inGroup cs = .ok (bytes, rest) ↔
      ∃ front, cs = front ++ rest ∧ Value front bytes [] ∧ Ends inGroup rest := by
  unfold plainValue
  rw [bind_eq_ok_iff]
  constructor
  · intro h
    rcases h with ⟨⟨⟨head, stars⟩, left⟩, hpattern, h⟩
    cases stars with
    | nil =>
      cases h
      exact value_of_pattern hpattern
    | cons star stars => cases h
  · intro h
    rcases h with ⟨front, rfl, hvalue, hends⟩
    obtain ⟨stars, hpattern, hstars⟩ := exists_pattern hvalue hends
    rw [List.map_eq_nil_iff.1 hstars] at hpattern
    exact ⟨_, hpattern, rfl⟩

/-! ## Values of which parts are wanted -/

/-- The parts of a value that stars separate, there being at least one part and none of no bytes. -/
structure Parts (initial : Option (List UInt8)) (inner : List (List UInt8))
    (last : Option (List UInt8)) : Prop where
  initial_ne : initial ≠ some []
  inner_ne : ∀ bytes ∈ inner, bytes ≠ []
  last_ne : last ≠ some []
  some_part : initial ≠ none ∨ inner ≠ [] ∨ last ≠ none

theorem nonempty?_ne_some_nil (bytes : List UInt8) : nonempty? bytes ≠ some [] := by
  cases bytes <;> simp [nonempty?]

theorem getD_nonempty? (bytes : List UInt8) : (nonempty? bytes).getD [] = bytes := by
  cases bytes <;> simp [nonempty?]

theorem eq_none_of_getD {bytes? : Option (List UInt8)} (h : bytes? ≠ some [])
    (hempty : bytes?.getD [] = []) : bytes? = none := by
  cases bytes? with
  | none => rfl
  | some bytes => exact absurd (congrArg some hempty) h

theorem nonempty?_getD {bytes? : Option (List UInt8)} (h : bytes? ≠ some []) :
    nonempty? (bytes?.getD []) = bytes? := by
  cases bytes? with
  | none => rfl
  | some bytes => cases bytes <;> simp_all [nonempty?]

theorem starParts_eq_ok_iff {star : List Char × List UInt8} {stars : List (List Char × List UInt8)}
    {inner : List (List UInt8)} {last : Option (List UInt8)} :
    starParts (star :: stars) = .ok (inner, last) ↔
      (star :: stars).map Prod.snd = inner ++ [last.getD []] ∧ (∀ bytes ∈ inner, bytes ≠ []) ∧
        last ≠ some [] := by
  -- on the stars, after the last of which the last part stands
  induction stars generalizing star inner with
  | nil =>
    rw [starParts, Except.ok.injEq, Prod.mk.injEq]
    constructor
    · intro h
      rcases h with ⟨rfl, rfl⟩
      exact ⟨by simp [getD_nonempty?], by simp, nonempty?_ne_some_nil _⟩
    · intro h
      rcases h with ⟨hparts, -, hlast⟩
      cases inner with
      | nil =>
        simp only [List.map_cons, List.map_nil, List.nil_append, List.cons.injEq] at hparts
        exact ⟨rfl, by rw [hparts.1, nonempty?_getD hlast]⟩
      | cons bytes inner => simp at hparts
  | cons next stars ih =>
    rw [starParts]
    by_cases hempty : star.2.isEmpty
    · rw [if_pos hempty]
      simp only [reduceCtorEq, false_iff]
      intro h
      rcases h with ⟨hparts, hinner, -⟩
      cases inner with
      | nil => simp at hparts
      | cons bytes inner =>
        rw [List.map_cons, List.cons_append, List.cons.injEq] at hparts
        exact hinner bytes (by simp) (hparts.1 ▸ List.isEmpty_iff.1 hempty)
    · rw [if_neg hempty, bind_eq_ok_iff]
      constructor
      · intro h
        rcases h with ⟨⟨inner', last'⟩, hrest, h⟩
        cases h
        obtain ⟨hparts, hinner, hlast⟩ := ih.1 hrest
        refine ⟨by rw [List.map_cons, hparts, List.cons_append], ?_, hlast⟩
        exact List.forall_mem_cons.2 ⟨fun h => hempty (List.isEmpty_iff.2 h), hinner⟩
      · intro h
        rcases h with ⟨hparts, hinner, hlast⟩
        cases inner with
        | nil => simp at hparts
        | cons bytes inner =>
          rw [List.map_cons, List.cons_append, List.cons.injEq] at hparts
          rw [List.forall_mem_cons] at hinner
          exact ⟨(inner, last), ih.2 ⟨hparts.2, hinner.2, hlast⟩, by rw [hparts.1]⟩

/-- What `attr=value` asserts, given the bytes of the value before its first star and after each. -/
def Asserts (attr : String) (head : List UInt8) (later : List (List UInt8)) : FilterItem → Prop
  | .compare relation attr' bytes => relation = .equal ∧ attr' = attr ∧ bytes = head ∧ later = []
  | .present attr' => attr' = attr ∧ head = [] ∧ later = [[]]
  | .substrings attr' initial inner last =>
    attr' = attr ∧ Parts initial inner last ∧ head = initial.getD [] ∧
      later = inner ++ [last.getD []]
  | .extensible .. => False

/-- A value with a star and more than that has parts. -/
theorem ofPattern_cons {attr : String} {head : List UInt8} {star : List Char × List UInt8}
    {stars : List (List Char × List UInt8)} {i : FilterItem}
    (hmore : head ≠ [] ∨ stars ≠ [] ∨ star.2 ≠ []) :
    ofPattern attr ⟨head, star :: stars⟩ = .ok i ↔
      ∃ inner last, starParts (star :: stars) = .ok (inner, last) ∧
        i = .substrings attr (nonempty? head) inner last := by
  unfold ofPattern
  split
  · next heq => cases heq
  · next hhead heq =>
    cases heq
    rw [show head = [] from hhead] at hmore
    simp at hmore
  · constructor
    · intro h
      rcases bind_eq_ok_iff.1 h with ⟨⟨inner, last⟩, hstars, h⟩
      cases h
      exact ⟨inner, last, hstars, rfl⟩
    · intro h
      rcases h with ⟨inner, last, hstars, rfl⟩
      exact bind_eq_ok_iff.2 ⟨(inner, last), hstars, rfl⟩

theorem asserts_of_ofPattern {attr : String} {p : Pattern} {i : FilterItem}
    (h : ofPattern attr p = .ok i) : Asserts attr p.head (p.later.map Prod.snd) i := by
  rcases p with ⟨head, _ | ⟨star, stars⟩⟩
  · cases h
    exact ⟨rfl, rfl, rfl, rfl⟩
  · by_cases hmore : head ≠ [] ∨ stars ≠ [] ∨ star.2 ≠ []
    · rcases (ofPattern_cons hmore).1 h with ⟨inner, last, hparts, rfl⟩
      obtain ⟨hlater, hinner, hlast⟩ := starParts_eq_ok_iff.1 hparts
      refine ⟨rfl, ⟨nonempty?_ne_some_nil _, hinner, hlast, ?_⟩, (getD_nonempty? _).symm, hlater⟩
      by_contra hnone
      simp only [not_or, not_not] at hnone
      rcases hnone with ⟨hhead, rfl, rfl⟩
      simp_all [nonempty?]
    · -- there is a star and nothing else
      simp only [not_or, not_not] at hmore
      rcases star with ⟨at_, bytes⟩
      rcases hmore with ⟨rfl, rfl, rfl⟩
      cases h
      exact ⟨rfl, rfl, rfl⟩

theorem ofPattern_of_asserts {attr : String} {head : List UInt8}
    {stars : List (List Char × List UInt8)} {i : FilterItem}
    (h : Asserts attr head (stars.map Prod.snd) i) : ofPattern attr ⟨head, stars⟩ = .ok i := by
  cases i with
  | compare relation attr' bytes =>
    rcases h with ⟨rfl, rfl, rfl, hlater⟩
    rw [List.map_eq_nil_iff.1 hlater]
    rfl
  | present attr' =>
    rcases h with ⟨rfl, rfl, hlater⟩
    obtain ⟨⟨at_, bytes⟩, rfl, hbytes⟩ := List.map_eq_singleton_iff.1 hlater
    obtain rfl : bytes = [] := hbytes
    rfl
  | substrings attr' initial inner last =>
    rcases h with ⟨rfl, hparts, rfl, hlater⟩
    cases stars with
    | nil => simp at hlater
    | cons star stars =>
      refine (ofPattern_cons ?_).2 ⟨inner, last,
        starParts_eq_ok_iff.2 ⟨hlater, hparts.inner_ne, hparts.last_ne⟩,
        by rw [nonempty?_getD hparts.initial_ne]⟩
      by_contra hnone
      simp only [not_or, not_not] at hnone
      rcases hnone with ⟨hinitial, rfl, hstar⟩
      cases inner with
      | nil =>
        simp only [List.map_cons, List.map_nil, List.nil_append, List.cons.injEq] at hlater
        have hlast := eq_none_of_getD hparts.last_ne (hlater.1.symm.trans hstar)
        rcases hparts.some_part with h | h | h
        · exact h (eq_none_of_getD hparts.initial_ne hinitial)
        · exact h rfl
        · exact h hlast
      | cons bytes inner => simp at hlater
  | extensible => cases h

/-! ## Extensible matches -/

/-- Whether a word is the keyword `dn`, in some letter case. -/
def isKeyword (word : List Char) : Bool :=
  word.map Char.toLower = ['d', 'n']

/-- A rule as it stands in an extensible match. -/
def ruleText (rule : Option String) : List Char :=
  rule.elim [] fun r => ':' :: r.toList

/-- What stands between the attribute and the value of an extensible match. -/
def headText (keyword : List Char) (head : MatchHead) : List Char :=
  (if head.dn then ':' :: keyword else []) ++ ruleText head.rule ++ [':', '=']

/-- The rule of an extensible match is a description, and is not taken for the keyword. -/
structure MatchHead.Sound (head : MatchHead) : Prop where
  rule : ∀ r ∈ head.rule, Description r
  not_keyword : head.dn = false → ∀ r ∈ head.rule, isKeyword r.toList = false

theorem description_ofList {word : List Char} (hne : word ≠ [])
    (hword : ∀ c ∈ word, isDescriptionChar c = true) : Description (String.ofList word) where
  ne_empty := by simpa using hne
  chars := by simpa using hword

/-- A word is read up to the colon behind it. -/
theorem span_word {word : List Char} {c : Char} (tail : List Char)
    (hword : ∀ c ∈ word, isDescriptionChar c = true) (hc : isDescriptionChar c = false) :
    (word ++ c :: tail).takeWhile isDescriptionChar = word ∧
      (word ++ c :: tail).dropWhile isDescriptionChar = c :: tail :=
  Text.span_eq_iff.2 ⟨rfl, hword, by simpa using hc⟩

/-- What is known of the head after one more word. -/
def MatchHead.add (head : MatchHead) (word : List Char) : MatchHead :=
  if isKeyword word && !head.dn then { head with dn := true }
  else { head with rule := some (String.ofList word) }

theorem matchHead_equals (found : MatchHead) (fuel : Nat) (rest : List Char) :
    matchHead found fuel (':' :: '=' :: rest) = .ok (found, rest) := by
  unfold matchHead
  cases fuel <;> rfl

/-- Unless the head ends, a word and a colon have to follow, and only one word can be the rule. -/
theorem matchHead_succ {found : MatchHead} {fuel : Nat} {cs : List Char}
    (hcs : ∀ rest, cs ≠ '=' :: rest) :
    matchHead found (fuel + 1) (':' :: cs) =
      if cs.takeWhile isDescriptionChar = [] ∨
          (cs.dropWhile isDescriptionChar).head? ≠ some ':' then
        .error ⟨.noColonEquals, cs.dropWhile isDescriptionChar⟩
      else if found.rule.isSome then .error ⟨.secondRule, cs⟩
      else matchHead (found.add (cs.takeWhile isDescriptionChar)) fuel
        (cs.dropWhile isDescriptionChar) := by
  conv_lhs => unfold matchHead
  split
  · next heq => exact absurd heq (hcs _)
  · next hzero _ => cases hzero
  · next fuel' hfuel _ =>
    cases hfuel
    dsimp only
    rw [show List.drop 1 (':' :: cs) = cs from rfl]
    by_cases hword : cs.takeWhile isDescriptionChar = [] ∨
        (cs.dropWhile isDescriptionChar).head? ≠ some ':'
    · rw [if_pos hword, if_pos (by simpa using hword)]
    · rw [if_neg hword, if_neg (by simpa using hword)]
      by_cases hrule : found.rule.isSome
      · rw [if_pos hrule, if_pos hrule]
      · rw [if_neg hrule, if_neg hrule, String.toList_ofList]
        unfold MatchHead.add isKeyword
        split <;> rfl

theorem matchHead_word {found : MatchHead} (hrule : found.rule = none) (fuel : Nat)
    {word tail : List Char} (hne : word ≠ []) (hword : ∀ c ∈ word, isDescriptionChar c = true) :
    matchHead found (fuel + 1) (':' :: (word ++ ':' :: tail)) =
      matchHead (found.add word) fuel (':' :: tail) := by
  obtain ⟨htake, hdrop⟩ := span_word tail hword (show isDescriptionChar ':' = false from rfl)
  rw [matchHead_succ, htake, hdrop, if_neg (by simp [hne]), if_neg (by simp [hrule])]
  intro rest heq
  cases word with
  | nil => exact hne rfl
  | cons c word =>
    cases heq
    exact absurd (hword '=' (by simp)) (by decide)

/-- The head of a match ends, or it goes on with a word if there was no rule yet. -/
theorem matchHead_cases {found head : MatchHead} {fuel : Nat} {cs rest : List Char}
    (h : matchHead found fuel (':' :: cs) = .ok (head, rest)) :
    (cs = '=' :: rest ∧ head = found) ∨
      ∃ fuel' word tail, cs = word ++ ':' :: tail ∧ word ≠ [] ∧
        (∀ c ∈ word, isDescriptionChar c = true) ∧ found.rule = none ∧
        matchHead (found.add word) fuel' (':' :: tail) = .ok (head, rest) := by
  by_cases hcs : ∃ tail, cs = '=' :: tail
  · obtain ⟨tail, rfl⟩ := hcs
    rw [matchHead_equals] at h
    cases h
    exact .inl ⟨rfl, rfl⟩
  · replace hcs := not_exists.1 hcs
    cases fuel with
    | zero =>
      unfold matchHead at h
      split at h
      · next heq => exact absurd heq (hcs _)
      · cases h
      · next hzero _ => cases hzero
    | succ fuel =>
      rw [matchHead_succ hcs] at h
      split at h
      · cases h
      · next hword =>
        split at h
        · cases h
        · next hrule =>
          simp only [not_or, not_not] at hword
          obtain ⟨tail, htail⟩ : ∃ tail, cs.dropWhile isDescriptionChar = ':' :: tail :=
            List.head?_eq_some_iff.1 hword.2
          obtain ⟨hsplit, hchars, -⟩ := Text.span_eq_iff.1 ⟨rfl, htail⟩
          rw [htail] at h
          exact .inr ⟨fuel, _, tail, hsplit, hword.1, hchars, by simpa using hrule, h⟩

/-- Before a rule is known, the head of a match consists of a rule at most, or of the keyword and
what follows it. -/
theorem sound_or_keyword_of_matchHead {dn : Bool} {head : MatchHead} {fuel : Nat}
    {cs rest : List Char} (h : matchHead ⟨none, dn⟩ fuel (':' :: cs) = .ok (head, rest)) :
    (head.dn = dn ∧ head.Sound ∧ ':' :: cs = ruleText head.rule ++ ':' :: '=' :: rest) ∨
      dn = false ∧ ∃ fuel' keyword tail, isKeyword keyword = true ∧ cs = keyword ++ ':' :: tail ∧
        matchHead ⟨none, true⟩ fuel' (':' :: tail) = .ok (head, rest) := by
  rcases matchHead_cases h with ⟨rfl, rfl⟩ | ⟨fuel', word, tail, rfl, hne, hword, -, hnext⟩
  · exact .inl ⟨rfl, ⟨by simp, by simp⟩, rfl⟩
  · by_cases hkeyword : isKeyword word && !dn
    · rw [show MatchHead.add ⟨none, dn⟩ word = ⟨none, true⟩ from if_pos hkeyword] at hnext
      simp only [Bool.and_eq_true, Bool.not_eq_true'] at hkeyword
      exact .inr ⟨hkeyword.2, fuel', word, tail, hkeyword.1, rfl, hnext⟩
    · -- the word is a rule, behind which the head has to end
      rw [show MatchHead.add ⟨none, dn⟩ word = ⟨some (.ofList word), dn⟩ from if_neg hkeyword]
        at hnext
      rcases matchHead_cases hnext with ⟨rfl, rfl⟩ | ⟨_, _, _, -, -, -, hnone, -⟩
      · refine .inl ⟨rfl, ⟨?_, ?_⟩, by simp [ruleText]⟩
        · intro r hr
          cases hr
          exact description_ofList hne hword
        · intro hdn r hr
          cases hr
          obtain rfl : dn = false := hdn
          simpa using hkeyword
      · cases hnone

/-- What is known of the head of a match before `:=` is what the text spells. -/
theorem headText_of_matchHead {head : MatchHead} {fuel : Nat} {cs rest : List Char}
    (h : matchHead ⟨none, false⟩ fuel (':' :: cs) = .ok (head, rest)) :
    head.Sound ∧ ∃ keyword, isKeyword keyword = true ∧
      ':' :: cs = headText keyword head ++ rest := by
  rcases sound_or_keyword_of_matchHead h with
    ⟨hdn, hsound, htext⟩ | ⟨-, fuel', keyword, tail, hkeyword, rfl, hnext⟩
  · exact ⟨hsound, ['d', 'n'], by decide, by simp [headText, hdn, htext]⟩
  · rcases sound_or_keyword_of_matchHead hnext with ⟨hdn, hsound, htext⟩ | ⟨hdn, -⟩
    · exact ⟨hsound, keyword, hkeyword, by simp [headText, hdn, htext]⟩
    · cases hdn

theorem isDescriptionChar_of_isKeyword {keyword : List Char} (h : isKeyword keyword = true) :
    keyword ≠ [] ∧ ∀ c ∈ keyword, isDescriptionChar c = true := by
  replace h : keyword.map Char.toLower = ['d', 'n'] := of_decide_eq_true h
  refine ⟨fun hnil => by simp [hnil] at h, fun c hc => ?_⟩
  have hlower : c.toLower ∈ ['d', 'n'] := h ▸ List.mem_map_of_mem hc
  by_cases hupper : c.isUpper
  · have halpha : c.isAlphanum = true :=
      Bool.or_eq_true_iff.2 (.inl (Bool.or_eq_true_iff.2 (.inl hupper)))
    simp [isDescriptionChar, halpha]
  · have heq : c.toLower = c := by
      unfold Char.toLower
      exact dif_neg fun hrange => hupper (decide_eq_true hrange)
    rw [heq] at hlower
    rcases List.mem_pair.1 hlower with rfl | rfl <;> rfl

theorem exists_headText_append (keyword : List Char) (head : MatchHead) (rest : List Char) :
    ∃ tail, headText keyword head ++ rest = ':' :: tail := by
  rcases head with ⟨_ | r, _ | _⟩
  all_goals exact ⟨_, rfl⟩

/-- The head of a match is read as it is spelled. -/
theorem matchHead_headText {head : MatchHead} {keyword : List Char} {fuel : Nat} (rest : List Char)
    (hhead : head.Sound) (hkeyword : isKeyword keyword = true) (hfuel : 2 ≤ fuel) :
    matchHead ⟨none, false⟩ fuel (headText keyword head ++ rest) = .ok (head, rest) := by
  obtain ⟨fuel, rfl⟩ := Nat.exists_eq_add_of_le' hfuel
  -- the rule may follow at once or behind the keyword
  have hrule (dn : Bool) (fuel : Nat) (hdn : head.dn = dn) :
      matchHead ⟨none, dn⟩ (fuel + 1) (ruleText head.rule ++ ':' :: '=' :: rest) =
        .ok (head, rest) := by
    rcases head with ⟨_ | r, dn'⟩
    · obtain rfl : dn' = dn := hdn
      exact matchHead_equals _ _ _
    · obtain rfl : dn' = dn := hdn
      have hr := hhead.rule r rfl
      have hadd : MatchHead.add ⟨none, dn'⟩ r.toList = ⟨some r, dn'⟩ := by
        unfold MatchHead.add
        rw [if_neg, String.ofList_toList]
        cases dn' with
        | true => simp
        | false => simpa using hhead.not_keyword rfl r rfl
      show matchHead _ _ (':' :: (r.toList ++ ':' :: '=' :: rest)) = _
      rw [matchHead_word rfl _ (by simpa using hr.ne_empty) hr.chars, hadd, matchHead_equals]
  cases hdn : head.dn with
  | false => simpa [headText, hdn] using hrule false (fuel + 1) hdn
  | true =>
    obtain ⟨hne, hchars⟩ := isDescriptionChar_of_isKeyword hkeyword
    have hadd : MatchHead.add ⟨none, false⟩ keyword = ⟨none, true⟩ :=
      if_pos (by rw [hkeyword]; rfl)
    -- behind the keyword there is a colon, that of the rule or that of the sign
    obtain ⟨tail, htail⟩ : ∃ tail, ruleText head.rule ++ ':' :: '=' :: rest = ':' :: tail := by
      cases head.rule with
      | none => exact ⟨_, rfl⟩
      | some r => exact ⟨_, rfl⟩
    have hnext := hrule true fuel hdn
    rw [htail] at hnext
    have htext : headText keyword head ++ rest = ':' :: (keyword ++ ':' :: tail) := by
      simp [headText, hdn, htail]
    rw [htext, matchHead_word rfl _ hne hchars, hadd, hnext]

/-! ## Assertions -/

/-- A text spells an assertion, without parentheses around it. -/
inductive ItemSpelled : List Char → FilterItem → Prop
  | equals {attr : String} {value : List Char} {head : List UInt8} {later : List (List UInt8)}
    {i : FilterItem} (hattr : Description attr) (hvalue : Value value head later)
    (hi : Asserts attr head later i) : ItemSpelled (attr.toList ++ '=' :: value) i
  | ordering {relation : Relation} {attr : String} {value : List Char} {bytes : List UInt8}
    (hrelation : relation ≠ .equal) (hattr : Description attr) (hvalue : Value value bytes []) :
    ItemSpelled (attr.toList ++ (sign relation ++ value)) (.compare relation attr bytes)
  | extensible {head : MatchHead} {attr : Option String} {keyword value : List Char}
    {bytes : List UInt8} (hhead : head.Sound) (hattr : ∀ a ∈ attr, Description a)
    (hsome : attr ≠ none ∨ head.rule ≠ none) (hkeyword : isKeyword keyword = true)
    (hvalue : Value value bytes []) :
    ItemSpelled ((attr.getD "").toList ++ (headText keyword head ++ value))
      (.extensible head.rule attr bytes head.dn)

theorem relation?_eq_some_iff {c : Char} {relation : Relation} :
    relation? c = some relation ↔ relation ≠ .equal ∧ sign relation = [c, '='] := by
  unfold relation?
  split
  · next hc =>
    subst hc
    cases relation <;> decide
  · split
    · next hc =>
      subst hc
      cases relation <;> decide
    · split
      · next hc =>
        subst hc
        cases relation <;> decide
      · cases relation <;> simp_all [sign, eq_comm]

/-- An extensible match has a head that names an attribute or a rule, and then a value. -/
theorem extensible_eq_ok_iff {inGroup : Bool} {whole cs rest : List Char} {attr : String}
    {i : FilterItem} :
    extensible inGroup whole attr cs = .ok (i, rest) ↔
      ∃ head front bytes, matchHead ⟨none, false⟩ cs.length cs = .ok (head, front ++ rest) ∧
        (attr ≠ "" ∨ head.rule ≠ none) ∧ Value front bytes [] ∧ Ends inGroup rest ∧
        i = .extensible head.rule (if attr.isEmpty then none else some attr) bytes head.dn := by
  unfold extensible
  rw [bind_eq_ok_iff]
  constructor
  · intro h
    rcases h with ⟨⟨head, left⟩, hhead, h⟩
    dsimp only at h
    split at h
    · cases h
    · next hsome =>
      rcases bind_eq_ok_iff.1 h with ⟨⟨bytes, left'⟩, hvalue, h⟩
      cases h
      obtain ⟨front, rfl, hvalue, hends⟩ := plainValue_eq_ok_iff.1 hvalue
      refine ⟨head, front, bytes, hhead, ?_, hvalue, hends, rfl⟩
      simpa [imp_iff_not_or] using hsome
  · intro h
    rcases h with ⟨head, front, bytes, hhead, hsome, hvalue, hends, rfl⟩
    refine ⟨_, hhead, ?_⟩
    dsimp only
    rw [if_neg (by simpa [imp_iff_not_or] using hsome)]
    exact bind_eq_ok_iff.2 ⟨_, plainValue_eq_ok_iff.2 ⟨front, rfl, hvalue, hends⟩, rfl⟩

/-- What is read as an assertion is spelled by the text up to where its value ends. -/
theorem itemSpelled_of_assertion {inGroup : Bool} {cs rest : List Char} {i : FilterItem}
    (h : assertion inGroup cs = .ok (i, rest)) :
    ∃ front, cs = front ++ rest ∧ ItemSpelled front i ∧ Ends inGroup rest := by
  unfold assertion at h
  generalize hword : cs.takeWhile isDescriptionChar = word at h
  generalize hafter : cs.dropWhile isDescriptionChar = after at h
  obtain ⟨rfl, hchars, -⟩ := Text.span_eq_iff.1 ⟨hword, hafter⟩
  dsimp only at h
  split at h
  · next hcolon =>
    obtain ⟨tail, rfl⟩ := List.head?_eq_some_iff.1 hcolon
    rcases extensible_eq_ok_iff.1 h with ⟨head, front, bytes, hhead, hsome, hvalue, hends, rfl⟩
    obtain ⟨hsound, keyword, hkeyword, htext⟩ := headText_of_matchHead hhead
    by_cases hempty : word = []
    · subst hempty
      have hrule : head.rule ≠ none := hsome.resolve_left (by simp)
      have hitem : ItemSpelled _ (.extensible head.rule none bytes head.dn) :=
        .extensible hsound (by simp) (.inr hrule) hkeyword hvalue
      exact ⟨_, by simpa using htext, hitem, hends⟩
    · have hattr : ∀ a ∈ some (String.ofList word), Description a := by
        intro a ha
        cases ha
        exact description_ofList hempty hchars
      rw [if_neg (by simpa using hempty)]
      exact ⟨_, by simp [htext], .extensible hsound hattr (.inl (by simp)) hkeyword hvalue, hends⟩
  · split at h
    · cases h
    · next hne =>
      have hattr : Description (String.ofList word) :=
        description_ofList (by simpa using hne) hchars
      split at h
      · cases h
      · next value =>
        rcases bind_eq_ok_iff.1 h with ⟨⟨p, left⟩, hpattern, h⟩
        rcases bind_eq_ok_iff.1 h with ⟨i', hi, h⟩
        cases h
        obtain ⟨front, rfl, hvalue, hends⟩ := value_of_pattern hpattern
        exact ⟨(String.ofList word).toList ++ '=' :: front, by simp,
          .equals hattr hvalue (asserts_of_ofPattern hi), hends⟩
      · next c more _ =>
        split at h
        · cases h
        · next relation hrelation =>
          obtain ⟨hrelation, hsign⟩ := relation?_eq_some_iff.1 hrelation
          split at h
          · next value =>
            rcases bind_eq_ok_iff.1 h with ⟨⟨bytes, left⟩, hplain, h⟩
            cases h
            obtain ⟨front, rfl, hvalue, hends⟩ := plainValue_eq_ok_iff.1 hplain
            exact ⟨(String.ofList word).toList ++ (sign relation ++ front), by simp [hsign],
              .ordering hrelation hattr hvalue, hends⟩
          · cases h

/-- An assertion is read as it is spelled. -/
theorem assertion_of_itemSpelled {inGroup : Bool} {front rest : List Char} {i : FilterItem}
    (h : ItemSpelled front i) (hrest : Ends inGroup rest) :
    assertion inGroup (front ++ rest) = .ok (i, rest) := by
  cases h with
  | @equals attr value head later _ hattr hvalue hi =>
    obtain ⟨stars, hpattern, rfl⟩ := exists_pattern hvalue hrest
    obtain ⟨htake, hdrop⟩ := span_word (value ++ rest) hattr.chars
      (show isDescriptionChar '=' = false from rfl)
    unfold assertion
    rw [List.append_assoc, List.cons_append, htake, hdrop, String.ofList_toList, if_neg (by simp),
      if_neg (by simpa using hattr.ne_empty)]
    exact bind_eq_ok_iff.2 ⟨_, hpattern, bind_eq_ok_iff.2 ⟨_, ofPattern_of_asserts hi, rfl⟩⟩
  | @ordering relation attr value bytes hrelation hattr hvalue =>
    obtain ⟨c, hsign, hc, hcolon, hequals⟩ : ∃ c, sign relation = [c, '='] ∧
        isDescriptionChar c = false ∧ c ≠ ':' ∧ c ≠ '=' := by
      cases relation with
      | equal => exact absurd rfl hrelation
      | greaterOrEqual => exact ⟨_, rfl, by decide⟩
      | lessOrEqual => exact ⟨_, rfl, by decide⟩
      | approximate => exact ⟨_, rfl, by decide⟩
    obtain ⟨htake, hdrop⟩ := span_word ('=' :: (value ++ rest)) hattr.chars hc
    unfold assertion
    rw [hsign, List.append_assoc, List.append_assoc, List.cons_append, List.cons_append,
      List.nil_append, htake, hdrop, String.ofList_toList, if_neg (by simpa using hcolon),
      if_neg (by simpa using hattr.ne_empty)]
    split
    · next heq => cases heq
    · next heq =>
      cases heq
      exact absurd rfl hequals
    · next heq =>
      cases heq
      rw [relation?_eq_some_iff.2 ⟨hrelation, hsign⟩]
      exact bind_eq_ok_iff.2 ⟨_, plainValue_eq_ok_iff.2 ⟨value, rfl, hvalue, hrest⟩, rfl⟩
  | @extensible head attr keyword value bytes hhead hattr hsome hkeyword hvalue =>
    obtain ⟨tail, htail⟩ := exists_headText_append keyword head (value ++ rest)
    have hchars : ∀ c ∈ (attr.getD "").toList, isDescriptionChar c = true := by
      cases attr with
      | none => simp
      | some a => exact (hattr a rfl).chars
    have hattr' : (if (attr.getD "").isEmpty then none else some (attr.getD "")) = attr := by
      cases attr with
      | none => rfl
      | some a => exact if_neg (by simpa using (hattr a rfl).ne_empty)
    obtain ⟨htake, hdrop⟩ := span_word tail hchars
      (show isDescriptionChar ':' = false from rfl)
    have hlen : 2 ≤ (headText keyword head ++ (value ++ rest)).length := by
      simp only [headText, List.length_append, List.length_cons, List.length_nil]
      omega
    unfold assertion
    rw [List.append_assoc, List.append_assoc, htail, htake, hdrop, String.ofList_toList]
    dsimp only
    rw [if_pos List.head?_cons]
    refine extensible_eq_ok_iff.2 ⟨head, value, bytes, ?_, ?_, hvalue, hrest, by rw [hattr']⟩
    · rw [← htail]
      exact matchHead_headText _ hhead hkeyword hlen
    · refine hsome.imp (fun hne hempty => ?_) id
      rw [hempty] at hattr'
      exact hne hattr'.symm

/-- An assertion begins with a name or with a colon, as no group does. -/
theorem ItemSpelled.exists_head {cs : List Char} {i : FilterItem} (h : ItemSpelled cs i) :
    ∃ c tail, cs = c :: tail ∧ (isDescriptionChar c = true ∨ c = ':') := by
  have hdescription {a : String} (ha : Description a) (tail : List Char) :
      ∃ c tail', a.toList ++ tail = c :: tail' ∧ (isDescriptionChar c = true ∨ c = ':') := by
    cases hcs : a.toList with
    | nil => exact absurd (String.toList_eq_nil_iff.1 hcs) ha.ne_empty
    | cons c cs => exact ⟨c, cs ++ tail, rfl, .inl (ha.chars c (by simp [hcs]))⟩
  cases h with
  | equals hattr => exact hdescription hattr _
  | ordering _ hattr => exact hdescription hattr _
  | @extensible head attr keyword value _ _ hattr =>
    cases attr with
    | none =>
      obtain ⟨tail, htail⟩ := exists_headText_append keyword head value
      exact ⟨':', tail, htail, .inr rfl⟩
    | some a => exact hdescription (hattr a rfl) _

/-! ## Groups -/

/-- A text spells a filter in parentheses with at most `room` groups in one another. -/
def GroupSpelled : Nat → List Char → Filter → Prop
  | 0, _, _ => False
  | room + 1, cs, .and fs =>
    ∃ texts, cs = '(' :: '&' :: texts.flatten ++ [')'] ∧ List.Forall₂ (GroupSpelled room) texts fs
  | room + 1, cs, .or fs =>
    ∃ texts, cs = '(' :: '|' :: texts.flatten ++ [')'] ∧ List.Forall₂ (GroupSpelled room) texts fs
  | room + 1, cs, .not f => ∃ text, cs = '(' :: '!' :: text ++ [')'] ∧ GroupSpelled room text f
  | _ + 1, cs, .item i => ∃ text, cs = '(' :: text ++ [')'] ∧ ItemSpelled text i

theorem GroupSpelled.exists_open {room : Nat} {cs : List Char} {f : Filter}
    (h : GroupSpelled room cs f) : ∃ tail, cs = '(' :: tail := by
  cases room with
  | zero => cases h
  | succ room =>
    cases f with
    | and fs =>
      obtain ⟨texts, rfl, -⟩ := h
      exact ⟨_, rfl⟩
    | or fs =>
      obtain ⟨texts, rfl, -⟩ := h
      exact ⟨_, rfl⟩
    | not f =>
      obtain ⟨text, rfl, -⟩ := h
      exact ⟨_, rfl⟩
    | item i =>
      obtain ⟨text, rfl, -⟩ := h
      exact ⟨_, rfl⟩

theorem close_eq_ok_iff {whole cs rest : List Char} {f f' : Filter} :
    close whole f cs = .ok (f', rest) ↔ f' = f ∧ cs = ')' :: rest := by
  cases cs with
  | nil => simp [close]
  | cons c cs =>
    by_cases hc : c = ')'
    · simp [close, hc, eq_comm]
    · simp [close, hc]

section Groups

variable {read : List Char → Except Stop (Filter × List Char)} {Spells : List Char → Filter → Prop}

/-- What is read as groups is spelled one after the other, if each group is. -/
theorem forall₂_of_groups
    (hread : ∀ cs rest f, read ('(' :: cs) = .ok (f, rest) →
      ∃ front, '(' :: cs = front ++ rest ∧ Spells front f)
    {fuel : Nat} {cs rest : List Char} {fs : List Filter}
    (h : groups read fuel cs = .ok (fs, rest)) :
    ∃ texts, cs = texts.flatten ++ rest ∧ List.Forall₂ Spells texts fs := by
  induction fuel generalizing cs fs with
  | zero =>
    cases h
    exact ⟨[], rfl, .nil⟩
  | succ fuel ih =>
    unfold groups at h
    split at h
    · next fuel' tail heq =>
      cases heq
      rcases bind_eq_ok_iff.1 h with ⟨⟨f, left⟩, hf, h⟩
      rcases bind_eq_ok_iff.1 h with ⟨⟨fs', left'⟩, hfs, h⟩
      cases h
      obtain ⟨front, hfront, hspells⟩ := hread _ _ _ hf
      obtain ⟨texts, rfl, htexts⟩ := ih hfs
      exact ⟨front :: texts, by simp [hfront], .cons hspells htexts⟩
    · cases h
      exact ⟨[], rfl, .nil⟩

/-- The same for groups with the parenthesis that ends what they are joined to. -/
theorem exists_of_groups_close
    (hread : ∀ cs rest f, read ('(' :: cs) = .ok (f, rest) →
      ∃ front, '(' :: cs = front ++ rest ∧ Spells front f)
    {fuel : Nat} {whole cs rest : List Char} {make : List Filter → Filter} {f : Filter}
    (h : (do
      let (fs, left) ← groups read fuel cs
      close whole (make fs) left) = .ok (f, rest)) :
    ∃ texts fs, cs = texts.flatten ++ ')' :: rest ∧ f = make fs ∧ List.Forall₂ Spells texts fs := by
  obtain ⟨⟨fs, left⟩, hfs, h⟩ := bind_eq_ok_iff.1 h
  obtain ⟨rfl, rfl⟩ := close_eq_ok_iff.1 h
  obtain ⟨texts, rfl, htexts⟩ := forall₂_of_groups hread hfs
  exact ⟨texts, fs, rfl, rfl, htexts⟩

/-- Groups are read as they are spelled, up to where no group begins. -/
theorem groups_of_forall₂
    (hopen : ∀ cs f, Spells cs f → ∃ tail, cs = '(' :: tail)
    (hread : ∀ front rest f, Spells front f → read (front ++ rest) = .ok (f, rest))
    {fuel : Nat} {texts : List (List Char)} {rest : List Char} {fs : List Filter}
    (h : List.Forall₂ Spells texts fs) (hrest : rest.head? ≠ some '(')
    (hfuel : texts.flatten.length ≤ fuel) :
    groups read fuel (texts.flatten ++ rest) = .ok (fs, rest) := by
  induction h generalizing fuel with
  | nil =>
    rw [List.flatten_nil, List.nil_append]
    unfold groups
    split
    · exact absurd rfl hrest
    · rfl
  | @cons text f texts fs hf hfs ih =>
    obtain ⟨tail, rfl⟩ := hopen _ _ hf
    rw [List.flatten_cons, List.length_append, List.length_cons] at hfuel
    obtain ⟨fuel, rfl⟩ := Nat.exists_eq_add_of_le' (show 1 ≤ fuel by omega)
    have hf' := hread _ (texts.flatten ++ rest) _ hf
    rw [List.flatten_cons, List.append_assoc, List.cons_append, groups]
    exact bind_eq_ok_iff.2 ⟨_, hf', bind_eq_ok_iff.2 ⟨_, ih (by omega), rfl⟩⟩

end Groups

/-- A group is read exactly if the text begins with a group, and what follows it is left. -/
theorem groupSpelled_of_group {room : Nat} {cs rest : List Char} {f : Filter}
    (h : group room ('(' :: cs) = .ok (f, rest)) :
    ∃ front, '(' :: cs = front ++ rest ∧ GroupSpelled room front f := by
  induction room generalizing cs rest f with
  | zero => cases h
  | succ room ih =>
    unfold group at h
    split at h
    · cases h
    · next tail heq =>
      obtain ⟨texts, fs, rfl, rfl, htexts⟩ := exists_of_groups_close (fun _ _ _ => ih) h
      obtain rfl : cs = _ := heq
      exact ⟨_, by simp, texts, rfl, htexts⟩
    · next tail heq =>
      obtain ⟨texts, fs, rfl, rfl, htexts⟩ := exists_of_groups_close (fun _ _ _ => ih) h
      obtain rfl : cs = _ := heq
      exact ⟨_, by simp, texts, rfl, htexts⟩
    · next tail heq =>
      split at h
      · next hopen =>
        rcases bind_eq_ok_iff.1 h with ⟨⟨f', left⟩, hf, h⟩
        rcases close_eq_ok_iff.1 h with ⟨rfl, rfl⟩
        obtain ⟨tail, rfl⟩ := List.head?_eq_some_iff.1 hopen
        obtain ⟨text, htext, hspelled⟩ := ih hf
        obtain rfl : cs = _ := heq
        exact ⟨'(' :: '!' :: text ++ [')'], by simp [htext], text, rfl, hspelled⟩
      · cases h
    · rcases bind_eq_ok_iff.1 h with ⟨⟨i, left⟩, hi, h⟩
      rcases close_eq_ok_iff.1 h with ⟨rfl, rfl⟩
      obtain ⟨text, htext, hspelled, -⟩ := itemSpelled_of_assertion hi
      obtain rfl : cs = _ := htext
      exact ⟨'(' :: text ++ [')'], by simp, text, rfl, hspelled⟩

/-- A group is read as it is spelled. -/
theorem group_of_groupSpelled {room : Nat} {front : List Char} {f : Filter}
    (h : GroupSpelled room front f) (rest : List Char) :
    group room (front ++ rest) = .ok (f, rest) := by
  induction room generalizing front rest f with
  | zero => cases h
  | succ room ih =>
    have hgroups (whole : List Char) {texts : List (List Char)} {fs : List Filter}
        (htexts : List.Forall₂ (GroupSpelled room) texts fs) (make : List Filter → Filter) :
        (groups (group room) (texts.flatten ++ ')' :: rest).length (texts.flatten ++ ')' :: rest)
          >>= fun p => close whole (make p.1) p.2) = .ok (make fs, rest) :=
      bind_eq_ok_iff.2 ⟨_, groups_of_forall₂ (fun _ _ h => h.exists_open)
        (fun _ rest _ h => ih h rest) htexts (by simp) (by simp), close_eq_ok_iff.2 ⟨rfl, rfl⟩⟩
    unfold group
    cases f with
    | and fs =>
      obtain ⟨texts, rfl, htexts⟩ := h
      simpa using hgroups _ htexts .and
    | or fs =>
      obtain ⟨texts, rfl, htexts⟩ := h
      simpa using hgroups _ htexts .or
    | not f =>
      obtain ⟨text, rfl, htext⟩ := h
      obtain ⟨tail, rfl⟩ := htext.exists_open
      have hread (whole : List Char) : (group room (('(' :: tail) ++ ')' :: rest)
          >>= fun p => close whole (.not p.1) p.2) = .ok (.not f, rest) :=
        bind_eq_ok_iff.2 ⟨_, ih htext _, close_eq_ok_iff.2 ⟨rfl, rfl⟩⟩
      simpa using hread _
    | item i =>
      obtain ⟨text, rfl, htext⟩ := h
      have hitem : assertion true (text ++ ')' :: rest) = .ok (i, ')' :: rest) :=
        assertion_of_itemSpelled htext (.inr ⟨rfl, rest, rfl⟩)
      have hdrop : List.drop 1 (('(' :: text ++ [')']) ++ rest) = text ++ ')' :: rest := by simp
      obtain ⟨c, tail, rfl, hc⟩ := htext.exists_head
      rw [hdrop]
      split
      · next heq => cases heq
      · next heq =>
        cases heq
        exact absurd hc (by decide)
      · next heq =>
        cases heq
        exact absurd hc (by decide)
      · next heq =>
        cases heq
        exact absurd hc (by decide)
      · exact bind_eq_ok_iff.2 ⟨_, hitem, close_eq_ok_iff.2 ⟨rfl, rfl⟩⟩

/-- Nothing may follow a filter. -/
theorem trailing_eq_ok_iff {f f' : Filter} {rest : List Char} :
    (if rest.isEmpty then .ok f else .error ⟨.trailing, rest⟩ : Except Stop Filter) = .ok f' ↔
      rest = [] ∧ f = f' := by
  cases rest <;> simp

/-- A filter text is accepted exactly if it is a group, or an assertion without parentheses, and
what is read is what it spells. -/
theorem scan_eq_ok_iff {cs : List Char} {f : Filter} :
    scan cs = .ok f ↔
      GroupSpelled (maxDepth + 1) cs f ∨ ∃ i, f = .item i ∧ ItemSpelled cs i := by
  unfold scan
  dsimp only
  constructor
  · intro h
    split at h
    · cases h
    · rcases bind_eq_ok_iff.1 h with ⟨⟨f', rest⟩, hf, h⟩
      rcases trailing_eq_ok_iff.1 h with ⟨rfl, rfl⟩
      obtain ⟨front, htext, hspelled⟩ := groupSpelled_of_group hf
      rw [htext, List.append_nil]
      exact .inl hspelled
    · rcases bind_eq_ok_iff.1 h with ⟨⟨i, rest⟩, hi, h⟩
      rcases trailing_eq_ok_iff.1 h with ⟨rfl, rfl⟩
      obtain ⟨front, rfl, hspelled, -⟩ := itemSpelled_of_assertion hi
      rw [List.append_nil]
      exact .inr ⟨i, rfl, hspelled⟩
  · intro h
    rcases h with h | ⟨i, rfl, h⟩
    · have hread := group_of_groupSpelled h []
      rw [List.append_nil] at hread
      obtain ⟨tail, rfl⟩ := h.exists_open
      exact bind_eq_ok_iff.2 ⟨_, hread, trailing_eq_ok_iff.2 ⟨rfl, rfl⟩⟩
    · have hitem := assertion_of_itemSpelled h (.inl rfl : Ends false [])
      rw [List.append_nil] at hitem
      obtain ⟨c, tail, rfl, hc⟩ := h.exists_head
      split
      · next heq => cases heq
      · next heq =>
        cases heq
        exact absurd hc (by decide)
      · exact bind_eq_ok_iff.2 ⟨_, hitem, trailing_eq_ok_iff.2 ⟨rfl, rfl⟩⟩

/-- A text is accepted as a filter exactly if its characters spell one. -/
theorem parse_eq_ok_iff {text : String} {f : Filter} :
    parse text = .ok f ↔
      GroupSpelled (maxDepth + 1) text.toList f ∨ ∃ i, f = .item i ∧ ItemSpelled text.toList i := by
  rw [← scan_eq_ok_iff]
  unfold parse
  split
  · next hscan => rw [hscan, Except.ok.injEq, Except.ok.injEq]
  · next hscan => simp [hscan]

end Filter
end Ldap
