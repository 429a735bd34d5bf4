import Ldap.Dn.Tree
import Ldap.Proofs.Dn.Normal

/-!
# The order of names

Names are compared as lists of lists of components in normal form, from the root on. So they are in
a total order, whatever schema they were read with; and for names that were read without one, it
agrees with equality, which looks at normalized texts.
-/

namespace Ldap

open Std (TransCmp OrientedCmp LawfulEqCmp)

/-! ## Sorting -/

section Sorting

variable {α : Type} (cmp : α → α → Ordering) [TransCmp cmp]

/-- An order that can be swapped compares any two values one way or the other. -/
theorem isLE_total (a b : α) : ((cmp a b).isLE || (cmp b a).isLE) = true := by
  have hswap : cmp b a = (cmp a b).swap := OrientedCmp.eq_swap
  rw [hswap]
  cases cmp a b <;> rfl

/-- A list that was sorted goes up. -/
theorem pairwise_mergeSort_isLE (as : List α) :
    (as.mergeSort fun a b => (cmp a b).isLE).Pairwise fun a b => (cmp a b).isLE = true :=
  List.pairwise_mergeSort (fun _ _ _ => TransCmp.isLE_trans) (isLE_total cmp) as

/-- Two lists are the same once sorted exactly if they hold the same, each as often. -/
theorem mergeSort_eq_iff_perm [LawfulEqCmp cmp] {as bs : List α} :
    (as.mergeSort fun a b => (cmp a b).isLE) = (bs.mergeSort fun a b => (cmp a b).isLE) ↔
      as.Perm bs := by
  constructor
  · intro h
    exact (List.mergeSort_perm as _).symm.trans (h ▸ List.mergeSort_perm bs _)
  · intro h
    have hperm := (List.mergeSort_perm as fun a b => (cmp a b).isLE).trans
      (h.trans (List.mergeSort_perm bs fun a b => (cmp a b).isLE).symm)
    refine hperm.eq_of_pairwise (fun a b _ _ hab hba => ?_) (pairwise_mergeSort_isLE cmp as)
      (pairwise_mergeSort_isLE cmp bs)
    exact LawfulEqCmp.eq_of_compare (OrientedCmp.isLE_antisymm hab hba)

end Sorting

/-! ## Relative names -/

namespace Rdn

instance : TransCmp compareComponents :=
  inferInstanceAs (TransCmp (compareLex (compareOn Prod.fst) (compareOn Prod.snd)))

instance : LawfulEqCmp compareComponents where
  eq_of_compare {a b} h := by
    obtain ⟨hname, hvalue⟩ := Ordering.then_eq_eq.1 h
    exact Prod.ext (LawfulEqCmp.eq_of_compare hname) (LawfulEqCmp.eq_of_compare hvalue)

/-- Lists of components are compared by the first components that differ, and then by length. -/
theorem compareLists_eq : compareLists = List.compareLex compareComponents := by
  funext as bs
  induction as generalizing bs with
  | nil => cases bs <;> rfl
  | cons a as ih =>
    cases bs with
    | nil => rfl
    | cons b bs => rw [compareLists, ih, List.compareLex_cons_cons]

instance : TransCmp compareLists :=
  compareLists_eq ▸ inferInstance

instance : LawfulEqCmp compareLists :=
  compareLists_eq ▸ inferInstance

/-- The components in normal form, each as often as it occurs. -/
def bag (r : Rdn) : Multiset (String × String) :=
  r.components.map (normalComponent r.schema)

/-- Relative names have the same normal components, sorted as they are, if these are the same as
often. -/
theorem normalComponents_eq_iff {r r' : Rdn} :
    r.normalComponents = r'.normalComponents ↔ r.bag = r'.bag := by
  rw [bag, bag, Multiset.coe_eq_coe]
  exact mergeSort_eq_iff_perm compareComponents

end Rdn

/-! ## Names -/

namespace Dn

/-- The relative names in normal form, from the root on. -/
def path (d : Dn) : List (List (String × String)) :=
  (d.rdns.map Rdn.normalComponents).reverse

theorem length_path (d : Dn) : d.path.length = d.rdns.length := by
  rw [path, List.length_reverse, List.length_map]

/-- Names are compared from the root down, each relative name by its components. -/
theorem compareFromRoot_eq (as bs : List Rdn) :
    compareFromRoot as bs = List.compareLex Rdn.compareLists (as.map Rdn.normalComponents)
      (bs.map Rdn.normalComponents) := by
  induction as generalizing bs with
  | nil => cases bs <;> rfl
  | cons a as ih =>
    cases bs with
    | nil => rfl
    | cons b bs =>
      rw [compareFromRoot, ih, List.map_cons, List.map_cons, List.compareLex_cons_cons]
      rfl

/-- Names are compared as their paths. -/
theorem compare_eq (a b : Dn) :
    compare a b = List.compareLex Rdn.compareLists a.path b.path := by
  rw [path, path, ← List.map_reverse, ← List.map_reverse]
  exact compareFromRoot_eq _ _

instance : TransCmp (compare : Dn → Dn → Ordering) where
  eq_swap {a b} := by
    rw [compare_eq, compare_eq]
    exact OrientedCmp.eq_swap
  isLE_trans {a b c} hab hbc := by
    rw [compare_eq] at hab hbc ⊢
    exact TransCmp.isLE_trans hab hbc

/-- Names that compare as equal have the same path. -/
theorem compare_eq_eq_iff {a b : Dn} : compare a b = .eq ↔ a.path = b.path := by
  rw [compare_eq, LawfulEqCmp.compare_eq_iff_eq]

/-- Names are equal exactly if their paths are. -/
theorem beq_iff {a b : Dn} (ha : ∀ r ∈ a.rdns, r.Plain) (hb : ∀ r ∈ b.rdns, r.Plain) :
    (a == b) = true ↔ a.path = b.path := by
  show (a.normalized == b.normalized) = true ↔ _
  rw [beq_iff_eq, normalized_eq_iff ha hb, path, path, List.reverse_inj]

/-- Whether the relative names of two names hold the same components in normal form, one by one. -/
def SameComponents (a b : Dn) : Prop :=
  List.Forall₂ (fun r r' => r.bag = r'.bag) a.rdns b.rdns

/-- And so have names that have the same components as often, level by level. -/
theorem sameComponents_iff {a b : Dn} : SameComponents a b ↔ a.path = b.path := by
  have hmap : a.rdns.map Rdn.normalComponents = b.rdns.map Rdn.normalComponents ↔
      List.Forall₂ Eq (a.rdns.map Rdn.normalComponents) (b.rdns.map Rdn.normalComponents) := by
    rw [List.forall₂_eq_eq_eq]
  rw [path, path, List.reverse_inj, hmap, List.forall₂_map_left_iff, List.forall₂_map_right_iff,
    SameComponents]
  simp only [Rdn.normalComponents_eq_iff]

/-- Names that were read without a schema are in a total order. It calls two of them equal exactly
if equality does: if they have as many relative names, with the same components in normal form,
each as often. Equal ones are hashed alike, and the normalized text tells the components. -/
theorem compare_total_of_parse {s t : String} {a b : Dn} (ha : parse s none = .ok a)
    (hb : parse t none = .ok b) :
    compare b a = (compare a b).swap ∧
    (∀ c : Dn, (compare a b).isLE → (compare b c).isLE → (compare a c).isLE) ∧
    (compare a b = .eq ↔ a == b) ∧
    ((a == b) = true ↔ SameComponents a b) ∧
    (a == b → ∀ (σ : Type) (write : σ → String → σ) (state : σ),
      a.hashInto write state = b.hashInto write state) ∧
    (¬ SameComponents a b → a.normalized ≠ b.normalized) := by
  have hbeq := beq_iff (plain_of_parse ha) (plain_of_parse hb)
  refine ⟨OrientedCmp.eq_swap, fun c => TransCmp.isLE_trans, compare_eq_eq_iff.trans hbeq.symm,
    hbeq.trans sameComponents_iff.symm, fun h σ write state => ?_, fun hne h => hne ?_⟩
  · have hnormalized : a.normalized = b.normalized := eq_of_beq h
    rw [hashInto, hashInto, hnormalized]
  · have hequal : (a.normalized == b.normalized) = true := beq_iff_eq.2 h
    exact sameComponents_iff.2 (hbeq.1 hequal)

/-- The parts of a relative name count in any order, and their names in any case. -/
theorem compare_total_of_reordered_parts :
    parse "O=b+cn=a" none =
      .ok ⟨"O=b+cn=a", [⟨[⟨"O", [0x62]⟩, ⟨"cn", [0x61]⟩], "O=b+cn=a", none⟩]⟩ ∧
    parse "CN=A+o=b" none =
      .ok ⟨"CN=A+o=b", [⟨[⟨"CN", [0x41]⟩, ⟨"o", [0x62]⟩], "CN=A+o=b", none⟩]⟩ ∧
    compare (⟨"O=b+cn=a", [⟨[⟨"O", [0x62]⟩, ⟨"cn", [0x61]⟩], "O=b+cn=a", none⟩]⟩ : Dn)
      ⟨"CN=A+o=b", [⟨[⟨"CN", [0x41]⟩, ⟨"o", [0x62]⟩], "CN=A+o=b", none⟩]⟩ = .eq := by
  have hlast : Scan.parts "cn=a".toList = .ok ([⟨"cn", [0x61]⟩], []) :=
    Scan.parts_of_part (by decide +kernel) (by simp [Scan.skipSpaces])
  have hlast' : Scan.parts "o=b".toList = .ok ([⟨"o", [0x62]⟩], []) :=
    Scan.parts_of_part (by decide +kernel) (by simp [Scan.skipSpaces])
  have hfirst : Scan.part "O=b+cn=a".toList = .ok (⟨"O", [0x62]⟩, "+cn=a".toList) := by
    decide +kernel
  have hfirst' : Scan.part "CN=A+o=b".toList = .ok (⟨"CN", [0x41]⟩, "+o=b".toList) := by
    decide +kernel
  have hparts : Scan.parts "O=b+cn=a".toList = .ok ([⟨"O", [0x62]⟩, ⟨"cn", [0x61]⟩], []) :=
    Scan.parts_of_part_plus hfirst rfl (List.cons_ne_nil _ _) hlast
  have hparts' : Scan.parts "CN=A+o=b".toList = .ok ([⟨"CN", [0x41]⟩, ⟨"o", [0x62]⟩], []) :=
    Scan.parts_of_part_plus hfirst' rfl (List.cons_ne_nil _ _) hlast'
  have hnames : Scan.relatives "O=b+cn=a".toList =
      .ok [⟨[⟨"O", [0x62]⟩, ⟨"cn", [0x61]⟩], "O=b+cn=a"⟩] :=
    Scan.relatives_of_relative (by rw [Scan.relative, hparts]; rfl) rfl
  have hnames' : Scan.relatives "CN=A+o=b".toList =
      .ok [⟨[⟨"CN", [0x41]⟩, ⟨"o", [0x62]⟩], "CN=A+o=b"⟩] :=
    Scan.relatives_of_relative (by rw [Scan.relative, hparts']; rfl) rfl
  have ha := parse_of_relatives (by decide) hnames none
  have hb := parse_of_relatives (by decide) hnames' none
  obtain ⟨-, -, hequal, hsame, -, -⟩ := compare_total_of_parse ha hb
  refine ⟨ha, hb, hequal.2 (hsame.2 (.cons ?_ .nil))⟩
  have hcomponents : [(⟨"O", [0x62]⟩ : Component), ⟨"cn", [0x61]⟩].map (Rdn.normalComponent none) =
      ([⟨"CN", [0x41]⟩, ⟨"o", [0x62]⟩].map (Rdn.normalComponent none)).reverse := by
    decide +kernel
  exact Multiset.coe_eq_coe.2 (hcomponents ▸ List.reverse_perm _)

end Dn
end Ldap
