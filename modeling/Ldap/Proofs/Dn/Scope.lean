import Ldap.Proofs.Dn.Faithful
import Ldap.Proofs.Dn.Subtree

/-!
# Names in the scope of a search

Whether a name is below another one is asked in three ways: by going one level up again and again,
by comparing relative names from the root on, and by comparing the name one level up as a whole.
For names that were read, each of them tells how the paths of the names begin.
-/

namespace Ldap.Dn

/-! ## Going up -/

/-- `p` is the name one level above `d`. -/
def IsParent (d p : Dn) : Prop :=
  d.parent? = some p

/-- Going up from a name at least once reaches the names of what is left of its relative names. -/
theorem transGen_isParent_iff {d p : Dn} :
    Relation.TransGen IsParent d p ↔
      ∃ front rest, d.rdns = front ++ rest ∧ front ≠ [] ∧ rest ≠ [] ∧ p = ofRdns rest := by
  constructor
  · intro h
    induction h with
    | single h =>
      obtain ⟨r, rest, hrdns, hne, rfl⟩ := parent?_eq_some_iff.1 h
      exact ⟨[r], rest, hrdns, List.cons_ne_nil _ _, hne, rfl⟩
    | tail _ h ih =>
      rcases ih with ⟨front, back, hrdns, hfront, -, rfl⟩
      obtain ⟨r, rest, hback, hne, rfl⟩ := parent?_eq_some_iff.1 h
      obtain rfl : back = r :: rest := hback
      exact ⟨front ++ [r], rest, by simp [hrdns], by simp, hne, rfl⟩
  · intro h
    rcases h with ⟨front, rest, hrdns, hfront, hne, rfl⟩
    induction front generalizing d with
    | nil => exact absurd rfl hfront
    | cons r front ih =>
      have hparent : IsParent d (ofRdns (front ++ rest)) :=
        parent?_eq_some_iff.2 ⟨r, front ++ rest, hrdns, by simp [hne], rfl⟩
      cases front with
      | nil => exact .single hparent
      | cons r' front => exact .head hparent (ih rfl (List.cons_ne_nil r' front))

theorem path_ofRdns (rs : List Rdn) : (ofRdns rs).path = (rs.map Rdn.normalComponents).reverse :=
  rfl

theorem path_eq_nil_iff {d : Dn} : d.path = [] ↔ d.rdns = [] := by
  rw [path, List.reverse_eq_nil_iff, List.map_eq_nil_iff]

/-- The path of a name begins with the path of the rest of its relative names. -/
theorem path_eq_append {d : Dn} {front rest : List Rdn} (h : d.rdns = front ++ rest) :
    d.path = (ofRdns rest).path ++ (front.map Rdn.normalComponents).reverse := by
  rw [path_ofRdns, path, h, List.map_append, List.reverse_append]

section Scopes

variable {d b : Dn}

theorem ofRdns_beq_iff (hd : d.IsRead) (hb : b.IsRead) {front rest : List Rdn}
    (h : d.rdns = front ++ rest) : (ofRdns rest == b) = true ↔ (ofRdns rest).path = b.path :=
  beq_iff (fun r hr => hd.plain r (h ▸ List.mem_append_right front hr)) hb.plain

/-- Names above `d` that equal a name that is not the root are those whose path is a proper
beginning of its path. -/
theorem exists_transGen_beq_iff (hd : d.IsRead) (hb : b.IsRead) :
    (∃ p, Relation.TransGen IsParent d p ∧ (p == b) = true) ↔
      b.path <+: d.path ∧ b.path ≠ d.path ∧ b.rdns ≠ [] := by
  constructor
  · rintro ⟨p, hup, hsame⟩
    obtain ⟨front, rest, hrdns, hfront, hne, rfl⟩ := transGen_isParent_iff.1 hup
    rw [ofRdns_beq_iff hd hb hrdns] at hsame
    have hpath := path_eq_append hrdns
    rw [hsame] at hpath
    refine ⟨hpath ▸ List.prefix_append _ _, fun heq => ?_, fun hnil => ?_⟩
    · rw [heq, List.self_eq_append_right, List.reverse_eq_nil_iff, List.map_eq_nil_iff] at hpath
      exact hfront hpath
    · rw [← path_eq_nil_iff, ← hsame, path_eq_nil_iff] at hnil
      exact hne hnil
  · rintro ⟨hbegins, hne, hroot⟩
    have hle := hbegins.length_le
    rw [length_path, length_path] at hle
    -- what is left once as many relative names are dropped as `d` has more
    have hsplit := (List.take_append_drop (d.rdns.length - b.rdns.length) d.rdns).symm
    have hpath := path_eq_append hsplit
    have hlength : (ofRdns (d.rdns.drop (d.rdns.length - b.rdns.length))).path.length
        = b.path.length := by
      rw [length_path, length_path, ofRdns, List.length_drop]
      omega
    have hsame : (ofRdns (d.rdns.drop (d.rdns.length - b.rdns.length))).path = b.path := by
      have hbegins' := hpath ▸ List.prefix_append _ _
      exact (List.prefix_of_prefix_length_le hbegins' hbegins hlength.le).eq_of_length hlength
    refine ⟨_, transGen_isParent_iff.2 ⟨_, _, hsplit, fun hnil => ?_, fun hnil => ?_, rfl⟩,
      (ofRdns_beq_iff hd hb hsplit).2 hsame⟩
    · rw [hnil] at hpath
      exact hne (hsame.symm.trans (by simpa using hpath.symm))
    · rw [hnil, path_ofRdns] at hsame
      exact hroot (path_eq_nil_iff.1 hsame.symm)

/-! ## Scopes -/

theorem matchesScope_base : d.matchesScope b .base = .ok (d == b) := rfl

theorem matchesScope_one : d.matchesScope b .one =
    .ok (d.parent?.any (· == b) || (b.rdns.isEmpty && d.rdns.length == 1)) := rfl

theorem matchesScope_sub : d.matchesScope b .sub = .ok (b.isAncestorOf d true) := rfl

theorem matchesScope_subordinates :
    d.matchesScope b .subordinates = .ok (b.isAncestorOf d false) := rfl

/-- A path that is a beginning of another one, and shorter by one, is all but the end of it. -/
theorem prefix_concat_and_length_iff {α : Type} {p q : List α} {x : α} :
    q <+: p ++ [x] ∧ p.length = q.length ↔ p = q := by
  constructor
  · intro h
    have hq : q <+: p := List.prefix_of_prefix_length_le h.1 (List.prefix_append p [x]) h.2.ge
    exact (hq.eq_of_length h.2.symm).symm
  · intro h
    exact ⟨h ▸ List.prefix_append p [x], congrArg List.length h⟩

/-- The names one level below `b` are those whose path has one more step. -/
theorem matchesScope_one_iff (hd : d.IsRead) (hb : b.IsRead) :
    d.matchesScope b .one = .ok true ↔
      b.path <+: d.path ∧ d.rdns.length = b.rdns.length + 1 := by
  rw [matchesScope_one, Except.ok.injEq, Bool.or_eq_true]
  cases hrdns : d.rdns with
  | nil => simp [parent?, hrdns]
  | cons r rest =>
    have hsplit : d.rdns = [r] ++ rest := hrdns
    have hpath : d.path = (ofRdns rest).path ++ [r.normalComponents] := path_eq_append hsplit
    have hlength : (r :: rest).length = b.rdns.length + 1 ↔
        (ofRdns rest).path.length = b.path.length := by
      rw [length_path, length_path, ofRdns, List.length_cons, Nat.add_right_cancel_iff]
    rw [hpath, hlength, prefix_concat_and_length_iff]
    cases rest with
    | nil =>
      -- there is no name above, so that only the root is left
      have hroot : (ofRdns []).path = b.path ↔ b.rdns = [] := eq_comm.trans path_eq_nil_iff
      rw [hroot]
      simp [parent?, hrdns]
    | cons r' rest =>
      rw [← ofRdns_beq_iff hd hb hsplit]
      simp [parent?, hrdns]

theorem matchesScope_subordinates_iff (hd : d.IsRead) (hb : b.IsRead) :
    d.matchesScope b .subordinates = .ok true ↔ b.path <+: d.path ∧ b.path ≠ d.path := by
  rw [matchesScope_subordinates, Except.ok.injEq, isAncestorOf_iff hb hd]
  simp

/-- The names below `b` are those from which going up reaches a name that equals it; the root is
reached by no name, and is above all others. -/
theorem matchesScope_subordinates_iff_exists (hd : d.IsRead) (hb : b.IsRead) :
    d.matchesScope b .subordinates = .ok true ↔
      (∃ p, Relation.TransGen IsParent d p ∧ (p == b) = true) ∨ (b.rdns = [] ∧ d.rdns ≠ []) := by
  rw [matchesScope_subordinates_iff hd hb, exists_transGen_beq_iff hd hb]
  by_cases hroot : b.rdns = []
  · have hnil : b.path = [] := path_eq_nil_iff.2 hroot
    have hne : [] ≠ d.path ↔ d.rdns ≠ [] := not_congr (eq_comm.trans path_eq_nil_iff)
    simp [hnil, hroot, hne]
  · simp [hroot]

/-- A subtree is its top and what is below. -/
theorem matchesScope_sub_iff (hd : d.IsRead) (hb : b.IsRead) :
    d.matchesScope b .sub = .ok true ↔
      d.matchesScope b .base = .ok true ∨ d.matchesScope b .subordinates = .ok true := by
  rw [matchesScope_sub, matchesScope_base, matchesScope_subordinates_iff hd hb, Except.ok.injEq,
    Except.ok.injEq, isAncestorOf_iff hb hd, hd.beq_iff hb]
  constructor
  · intro h
    by_cases hsame : d.path = b.path
    · exact .inl hsame
    · exact .inr ⟨h.1, Ne.symm hsame⟩
  · rintro (hsame | hbelow)
    · exact ⟨hsame ▸ List.prefix_rfl, .inl rfl⟩
    · exact ⟨hbelow.1, .inl rfl⟩

/-- One level down is what is below and has one relative name more. -/
theorem matchesScope_one_iff_subordinates (hd : d.IsRead) (hb : b.IsRead) :
    d.matchesScope b .one = .ok true ↔
      d.matchesScope b .subordinates = .ok true ∧ d.rdns.length = b.rdns.length + 1 := by
  rw [matchesScope_one_iff hd hb, matchesScope_subordinates_iff hd hb, and_assoc]
  refine and_congr_right fun _ => (and_iff_right_of_imp fun hlength heq => ?_).symm
  rw [← length_path, ← length_path, heq] at hlength
  omega

/-- A scope with a meaning is always answered. -/
theorem exists_matchesScope {scope : SearchScope}
    (h : scope ∈ [SearchScope.base, .one, .sub, .subordinates]) :
    ∃ answer, d.matchesScope b scope = .ok answer := by
  simp only [List.mem_cons, List.not_mem_nil, or_false] at h
  rcases h with rfl | rfl | rfl | rfl
  · exact ⟨_, matchesScope_base⟩
  · exact ⟨_, matchesScope_one⟩
  · exact ⟨_, matchesScope_sub⟩
  · exact ⟨_, matchesScope_subordinates⟩

end Scopes

/-- Being above is an order of the names that were read, equal names being one, and being above and
not the same is its strict part. The names below a base are those from which going up reaches a name
that equals it, and all but the root if it is the root; a subtree is the base and the names below
it, and the names one level down are those below it that have one relative name more. -/
theorem position_consistent {d b c : Dn} (hd : d.IsRead) (hb : b.IsRead) (hc : c.IsRead) :
    d.isAncestorOf d true ∧
    (d.isAncestorOf b true → b.isAncestorOf c true → d.isAncestorOf c true) ∧
    (d.isAncestorOf b true → b.isAncestorOf d true → d == b) ∧
    (d.isAncestorOf b false ↔ d.isAncestorOf b true ∧ ¬(d == b)) ∧
    (d.matchesScope b .subordinates = .ok true ↔
      (∃ p, Relation.TransGen IsParent d p ∧ p == b) ∨ (b.rdns = [] ∧ d.rdns ≠ [])) ∧
    (d.matchesScope b .sub = .ok true ↔
      d.matchesScope b .base = .ok true ∨ d.matchesScope b .subordinates = .ok true) ∧
    (d.matchesScope b .one = .ok true ↔
      d.matchesScope b .subordinates = .ok true ∧ d.rdns.length = b.rdns.length + 1) ∧
    ∀ scope ∈ [SearchScope.base, .one, .sub, .subordinates],
      ∃ answer, d.matchesScope b scope = .ok answer := by
  refine ⟨?_, ?_, ?_, ?_, matchesScope_subordinates_iff_exists hd hb, matchesScope_sub_iff hd hb,
    matchesScope_one_iff_subordinates hd hb, fun scope hscope => exists_matchesScope hscope⟩
  · exact (isAncestorOf_iff hd hd true).2 ⟨List.prefix_rfl, .inl rfl⟩
  · rw [isAncestorOf_iff hd hb, isAncestorOf_iff hb hc, isAncestorOf_iff hd hc]
    exact fun h h' => ⟨h.1.trans h'.1, .inl rfl⟩
  · rw [isAncestorOf_iff hd hb, isAncestorOf_iff hb hd, hd.beq_iff hb]
    exact fun h h' => h.1.eq_of_length_le h'.1.length_le
  · rw [isAncestorOf_iff hd hb, isAncestorOf_iff hd hb, hd.beq_iff hb]
    simp

/-- A person is one level below the organization that is named in capitals, and below the root. -/
theorem position_of_person_and_organization :
    ∃ person organization root : Dn, person.IsRead ∧ organization.IsRead ∧ root.IsRead ∧
      person.text = "cn=a, o=b" ∧ organization.text = "O=B" ∧ root.text = "" ∧
      person.matchesScope organization .one = .ok true ∧
      person.matchesScope organization .subordinates = .ok true ∧
      person.matchesScope root .subordinates = .ok true := by
  have hcapitals : Scan.relative "O=B".toList = .ok (⟨[⟨"O", [0x42]⟩], "O=B"⟩, []) := by
    rw [Scan.relative, Scan.parts_eq]
    decide +kernel
  have htop : Scan.relative "o=b".toList = .ok (⟨[⟨"o", [0x62]⟩], "o=b"⟩, []) := by
    rw [Scan.relative, Scan.parts_eq]
    decide +kernel
  have hbelow : Scan.relative "cn=a, o=b".toList =
      .ok (⟨[⟨"cn", [0x61]⟩], "cn=a"⟩, ", o=b".toList) := by
    rw [Scan.relative, Scan.parts_eq]
    decide +kernel
  have hperson := parse_of_relatives (by decide) (Scan.relatives_of_relative_separator hbelow rfl
    rfl (List.cons_ne_nil _ _) (Scan.relatives_of_relative htop rfl)) none
  have horganization := parse_of_relatives (by decide) (Scan.relatives_of_relative hcapitals rfl)
    none
  have hroot : parse "" none = .ok null := by
    rw [parse, Scan.distinguishedName]
    rfl
  have hsame : ((ofRdns [⟨[⟨"o", [0x62]⟩], "o=b", none⟩]) ==
      (⟨"O=B", [⟨[⟨"O", [0x42]⟩], "O=B", none⟩]⟩ : Dn)) = true := by
    decide +kernel
  obtain ⟨-, -, -, -, hup, -, hone, -⟩ :=
    position_consistent ⟨_, hperson⟩ ⟨_, horganization⟩ ⟨_, hroot⟩
  obtain ⟨-, -, -, -, hall, -⟩ := position_consistent ⟨_, hperson⟩ ⟨_, hroot⟩ ⟨_, hroot⟩
  have hunder := hup.2 (.inl ⟨_, .single rfl, hsame⟩)
  exact ⟨_, _, _, ⟨_, hperson⟩, ⟨_, horganization⟩, ⟨_, hroot⟩, rfl, rfl, rfl,
    hone.2 ⟨hunder, rfl⟩, hunder, hall.2 (.inr ⟨rfl, List.cons_ne_nil _ _⟩)⟩

end Ldap.Dn
