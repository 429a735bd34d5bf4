import Ldap.Proofs.Dn.Order

/-!
# Subtrees in the order of names

A name is above another one exactly if its path is a beginning of the other's path. Lists that are
compared at their first difference stand together if they begin alike, behind the shared beginning
itself. So a sorted list of names holds every subtree in one piece, from its top on.
-/

namespace Ldap

open Std (OrientedCmp LawfulEqCmp ReflCmp)

/-! ## Beginnings of lists -/

section Beginnings

variable {α : Type} {cmp : α → α → Ordering}

/-- A proper beginning of a list comes before the list. -/
theorem compareLex_eq_lt_of_beginning [ReflCmp cmp] {p as : List α} (h : p <+: as) (hne : p ≠ as) :
    List.compareLex cmp p as = .lt := by
  induction p generalizing as with
  | nil =>
    obtain ⟨a, as, rfl⟩ := List.exists_cons_of_ne_nil hne.symm
    exact List.compareLex_nil_cons
  | cons x p ih =>
    obtain ⟨as, rfl, htail⟩ := List.cons_prefix_iff.1 h
    have hself : cmp x x = .eq := ReflCmp.compare_self
    rw [List.compareLex_cons_cons, hself, Ordering.eq_then]
    exact ih htail fun heq => hne (congrArg (x :: ·) heq)

/-- What lies between two lists with the same beginning has it too. -/
theorem prefix_of_isLE_of_isLE [OrientedCmp cmp] [LawfulEqCmp cmp] {p as bs cs : List α}
    (has : p <+: as) (hcs : p <+: cs) (hab : (List.compareLex cmp as bs).isLE)
    (hbc : (List.compareLex cmp bs cs).isLE) : p <+: bs := by
  induction p generalizing as bs cs with
  | nil => exact List.nil_prefix
  | cons x p ih =>
    obtain ⟨as, rfl, htail⟩ := List.cons_prefix_iff.1 has
    obtain ⟨cs, rfl, htail'⟩ := List.cons_prefix_iff.1 hcs
    cases bs with
    | nil =>
      rw [List.compareLex_cons_nil] at hab
      cases hab
    | cons y bs =>
      rw [List.compareLex_cons_cons] at hab hbc
      have hxy : cmp x y = .eq := OrientedCmp.isLE_antisymm (Ordering.isLE_left_of_isLE_then hab)
        (Ordering.isLE_left_of_isLE_then hbc)
      obtain rfl := LawfulEqCmp.eq_of_compare hxy
      rw [hxy, Ordering.eq_then] at hab hbc
      exact List.cons_prefix_cons.2 ⟨rfl, ih htail htail' hab hbc⟩

end Beginnings

/-- Lists are compared member by member, as far as the first one goes: so it is found out whether
what `f` says of it is a beginning of what it says of the second one. -/
theorem all_zip_iff_beginning {α β : Type} [BEq α] {f : α → β} {as bs : List α}
    (hbeq : ∀ a ∈ as, ∀ b ∈ bs, (a == b) = true ↔ f a = f b) (hle : as.length ≤ bs.length) :
    ((as.zip bs).all fun p => p.1 == p.2) = true ↔ as.map f <+: bs.map f := by
  induction as generalizing bs with
  | nil => simp
  | cons a as ih =>
    cases bs with
    | nil => simp at hle
    | cons b bs =>
      have hhead := hbeq a List.mem_cons_self b List.mem_cons_self
      have htail := ih (fun a ha b hb => hbeq a (List.mem_cons_of_mem _ ha) b
        (List.mem_cons_of_mem _ hb)) (Nat.le_of_succ_le_succ hle)
      rw [List.zip_cons_cons, List.all_cons, Bool.and_eq_true, hhead, htail, List.map_cons,
        List.map_cons, List.cons_prefix_cons]

/-- The members of an ordered list that have some property stand together, if everything between
two of them has the property as well. -/
theorem exists_block_of_pairwise {α : Type} {R : α → α → Prop} {P : α → Prop} {as : List α}
    (hbetween : ∀ a ∈ as, ∀ b ∈ as, ∀ c ∈ as, P a → P c → R a b → R b c → P b)
    (has : as.Pairwise R) :
    ∃ before block after, as = before ++ block ++ after ∧ (∀ a ∈ block, P a) ∧
      ∀ a ∈ before ++ after, ¬ P a := by
  induction as with
  | nil => exact ⟨[], [], [], rfl, by simp, by simp⟩
  | cons a as ih =>
    rw [List.pairwise_cons] at has
    obtain ⟨before, block, after, rfl, hblock, hothers⟩ :=
      ih (fun a ha b hb c hc => hbetween a (List.mem_cons_of_mem _ ha) b
        (List.mem_cons_of_mem _ hb) c (List.mem_cons_of_mem _ hc)) has.2
    by_cases ha : P a
    · cases block with
      | nil => exact ⟨[], [a], before ++ after, by simp, by simpa using ha, hothers⟩
      | cons c block =>
        -- what stands in front of the block would lie between `a` and the first of the block
        have hbefore : before = [] := by
          refine List.eq_nil_iff_forall_not_mem.2 fun b hb => ?_
          have hmem : b ∈ before ++ c :: block ++ after := by simp [hb]
          have hbc : R b c := by
            have hpairwise := (List.pairwise_append.1 (List.pairwise_append.1 has.2).1).2.2
            exact hpairwise b hb c List.mem_cons_self
          have hPb : P b := hbetween a List.mem_cons_self b (List.mem_cons_of_mem _ hmem) c
            (by simp) ha (hblock c List.mem_cons_self) (has.1 b hmem) hbc
          exact hothers b (List.mem_append_left _ hb) hPb
        subst hbefore
        exact ⟨[], a :: c :: block, after, rfl, List.forall_mem_cons.2 ⟨ha, hblock⟩, hothers⟩
    · exact ⟨a :: before, block, after, rfl, hblock, List.forall_mem_cons.2 ⟨ha, hothers⟩⟩

/-! ## Names above others -/

namespace Dn

/-- Whether a name was read without a schema. -/
def IsRead (d : Dn) : Prop :=
  ∃ text, parse text none = .ok d

theorem IsRead.plain {d : Dn} (h : d.IsRead) : ∀ r ∈ d.rdns, r.Plain := by
  obtain ⟨text, htext⟩ := h
  exact plain_of_parse htext

theorem IsRead.beq_iff {a b : Dn} (ha : a.IsRead) (hb : b.IsRead) :
    (a == b) = true ↔ a.path = b.path :=
  Dn.beq_iff ha.plain hb.plain

/-- A name is above another one exactly if its path is a beginning of the other's path. -/
theorem isAncestorOf_iff {d a : Dn} (hd : d.IsRead) (ha : a.IsRead) (orSame : Bool) :
    d.isAncestorOf a orSame = true ↔ d.path <+: a.path ∧ (orSame = true ∨ d.path ≠ a.path) := by
  rw [isAncestorOf]
  split
  · next hgt =>
    rw [Nat.compare_eq_gt, ← length_path, ← length_path] at hgt
    exact iff_of_false Bool.false_ne_true fun h => absurd h.1.length_le (not_le.2 hgt)
  · next heq =>
    rw [Nat.compare_eq_eq, ← length_path, ← length_path] at heq
    rw [Bool.and_eq_true, hd.beq_iff ha]
    constructor
    · rintro ⟨hsame, hpath⟩
      exact ⟨hpath ▸ List.prefix_rfl, .inl hsame⟩
    · rintro ⟨hbegins, hor⟩
      have hpath := hbegins.eq_of_length heq
      exact ⟨hor.resolve_right fun hne => hne hpath, hpath⟩
  · next hlt =>
    rw [Nat.compare_eq_lt] at hlt
    have hbeq : ∀ r ∈ d.rdns.reverse, ∀ r' ∈ a.rdns.reverse,
        (r == r') = true ↔ r.normalComponents = r'.normalComponents := fun r hr r' hr' =>
      Rdn.beq_iff (hd.plain r (List.mem_reverse.1 hr)) (ha.plain r' (List.mem_reverse.1 hr'))
    have hne : d.path ≠ a.path := fun hpath => by
      rw [← length_path, ← length_path, hpath] at hlt
      exact lt_irrefl _ hlt
    rw [all_zip_iff_beginning hbeq (by simpa using hlt.le), List.map_reverse, List.map_reverse]
    exact (and_iff_left (.inr hne)).symm

theorem compare_eq_lt_of_isAncestorOf {d a : Dn} (hd : d.IsRead) (ha : a.IsRead)
    (h : d.isAncestorOf a false = true) : compare d a = .lt := by
  obtain ⟨hbegins, hor⟩ := (isAncestorOf_iff hd ha false).1 h
  rw [compare_eq]
  exact compareLex_eq_lt_of_beginning hbegins (hor.resolve_left Bool.false_ne_true)

theorem isAncestorOf_of_isLE_of_isLE {d a b c : Dn} (hd : d.IsRead) (ha : a.IsRead) (hb : b.IsRead)
    (hc : c.IsRead) (hda : d.isAncestorOf a true = true) (hdc : d.isAncestorOf c true = true)
    (hab : (compare a b).isLE) (hbc : (compare b c).isLE) : d.isAncestorOf b true = true := by
  rw [isAncestorOf_iff hd ha] at hda
  rw [isAncestorOf_iff hd hc] at hdc
  rw [compare_eq] at hab hbc
  exact (isAncestorOf_iff hd hb true).2 ⟨prefix_of_isLE_of_isLE hda.1 hdc.1 hab hbc, .inl rfl⟩

/-- A name that is not after a name that equals `d`, and at or below `d`, equals `d` as well. -/
theorem beq_of_isAncestorOf_of_isLE {d a b : Dn} (hd : d.IsRead) (ha : a.IsRead) (hb : b.IsRead)
    (hda : d.isAncestorOf a true = true) (hbd : (b == d) = true) (hab : (compare a b).isLE) :
    (a == d) = true := by
  have hbegins := ((isAncestorOf_iff hd ha true).1 hda).1
  rw [hb.beq_iff hd] at hbd
  rw [ha.beq_iff hd]
  by_contra hne
  have hlt : compare b a = .lt := by
    rw [compare_eq, hbd]
    exact compareLex_eq_lt_of_beginning hbegins (Ne.symm hne)
  have hgt : compare a b = .gt := OrientedCmp.gt_iff_lt.2 hlt
  rw [hgt] at hab
  cases hab

/-- Names in order. -/
def Sorted (ds : List Dn) : Prop :=
  ds.Pairwise fun a b => (compare a b).isLE = true

/-- A name that is among names at or below it, in order, is the first of them. -/
theorem exists_top_of_sorted {d a : Dn} {block : List Dn} (hd : d.IsRead)
    (hread : ∀ b ∈ block, b.IsRead) (hblock : ∀ b ∈ block, d.isAncestorOf b true = true)
    (hsorted : Sorted block) (ha : a ∈ block) (had : (a == d) = true) :
    ∃ top rest, block = top :: rest ∧ (top == d) = true := by
  obtain ⟨top, rest, rfl⟩ := List.exists_cons_of_ne_nil (List.ne_nil_of_mem ha)
  refine ⟨top, rest, rfl, ?_⟩
  rcases List.mem_cons.1 ha with rfl | hrest
  · exact had
  · have htop : (compare top a).isLE := (List.pairwise_cons.1 hsorted).1 a hrest
    exact beq_of_isAncestorOf_of_isLE hd (hread top List.mem_cons_self) (hread a ha)
      (hblock top List.mem_cons_self) had htop

/-- What lies between names at or below a name is at or below it, and a name comes before the names
below it. So in a sorted list the names at or below any name stand together, and behind it if it is
there; and sorting yields such a list of the same names. -/
theorem subtree_contiguous_of_sorted {d : Dn} (hd : d.IsRead) :
    (∀ a b c : Dn, a.IsRead → b.IsRead → c.IsRead → d.isAncestorOf a true →
      d.isAncestorOf c true → (compare a b).isLE → (compare b c).isLE → d.isAncestorOf b true) ∧
    (∀ a : Dn, a.IsRead → d.isAncestorOf a false → compare d a = .lt) ∧
    (∀ ds : List Dn, (∀ a ∈ ds, a.IsRead) → Sorted ds →
      ∃ before block after, ds = before ++ block ++ after ∧
        (∀ a ∈ block, d.isAncestorOf a true) ∧ (∀ a ∈ before ++ after, ¬ d.isAncestorOf a true) ∧
        ((∃ a ∈ ds, a == d) → ∃ top rest, block = top :: rest ∧ top == d)) ∧
    ∀ ds : List Dn, (sort ds).Perm ds ∧ Sorted (sort ds) := by
  refine ⟨fun a b c ha hb hc => isAncestorOf_of_isLE_of_isLE hd ha hb hc,
    fun a ha => compare_eq_lt_of_isAncestorOf hd ha, fun ds hds hsorted => ?_,
    fun ds => ⟨List.mergeSort_perm _ _, pairwise_mergeSort_isLE compare ds⟩⟩
  obtain ⟨before, block, after, rfl, hblock, hothers⟩ := exists_block_of_pairwise
    (P := fun a => d.isAncestorOf a true = true) (fun a ha b hb c hc hda hdc hab hbc =>
      isAncestorOf_of_isLE_of_isLE hd (hds a ha) (hds b hb) (hds c hc) hda hdc hab hbc) hsorted
  refine ⟨before, block, after, rfl, hblock, hothers, ?_⟩
  rintro ⟨a, ha, had⟩
  have hda : d.isAncestorOf a true = true := by
    have hpath := ((hds a ha).beq_iff hd).1 had
    exact (isAncestorOf_iff hd (hds a ha) true).2 ⟨hpath ▸ List.prefix_rfl, .inl rfl⟩
  have hmem : a ∈ block := by
    by_contra hnot
    refine hothers a ?_ hda
    simpa [hnot] using ha
  have hpart : Sorted block := (List.pairwise_append.1 (List.pairwise_append.1 hsorted).1).2.1
  exact exists_top_of_sorted hd (fun b hb => hds b (by simp [hb])) hblock hpart hmem had

/-- A name stands in front of the name of an entry below it. -/
theorem compare_of_name_and_child :
    IsRead ⟨"o=b", [⟨[⟨"o", [0x62]⟩], "o=b", none⟩]⟩ ∧
    IsRead ⟨"cn=a, o=b", [⟨[⟨"cn", [0x61]⟩], "cn=a", none⟩, ⟨[⟨"o", [0x62]⟩], "o=b", none⟩]⟩ ∧
    compare (⟨"o=b", [⟨[⟨"o", [0x62]⟩], "o=b", none⟩]⟩ : Dn)
      ⟨"cn=a, o=b", [⟨[⟨"cn", [0x61]⟩], "cn=a", none⟩, ⟨[⟨"o", [0x62]⟩], "o=b", none⟩]⟩ = .lt := by
  have htop : Scan.relative "o=b".toList = .ok (⟨[⟨"o", [0x62]⟩], "o=b"⟩, []) := by
    rw [Scan.relative, Scan.parts_eq]
    decide +kernel
  have hbelow : Scan.relative "cn=a, o=b".toList =
      .ok (⟨[⟨"cn", [0x61]⟩], "cn=a"⟩, ", o=b".toList) := by
    rw [Scan.relative, Scan.parts_eq]
    decide +kernel
  have hnames : Scan.relatives "o=b".toList = .ok [⟨[⟨"o", [0x62]⟩], "o=b"⟩] :=
    Scan.relatives_of_relative htop rfl
  have hd : IsRead ⟨"o=b", [⟨[⟨"o", [0x62]⟩], "o=b", none⟩]⟩ :=
    ⟨_, parse_of_relatives (by decide) hnames none⟩
  have ha : IsRead ⟨"cn=a, o=b",
      [⟨[⟨"cn", [0x61]⟩], "cn=a", none⟩, ⟨[⟨"o", [0x62]⟩], "o=b", none⟩]⟩ :=
    ⟨_, parse_of_relatives (by decide) (Scan.relatives_of_relative_separator hbelow rfl rfl
      (List.cons_ne_nil _ _) hnames) none⟩
  refine ⟨hd, ha, (subtree_contiguous_of_sorted hd).2.1 _ ha ?_⟩
  rw [isAncestorOf_iff hd ha]
  exact ⟨List.prefix_append _ _, .inr (by simp [path])⟩

end Dn
end Ldap
