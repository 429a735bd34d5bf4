import Ldap.Text.Lowercase
import Mathlib.Tactic

/-!
# Lower case is in lower case

No character that the lower-case form of a text has is changed by taking the lower-case form again,
wherever it then stands: a capital sigma, whose form goes by its neighbours, is not among them.
-/

namespace Ldap.Text

/-- A character that the lower-case form of any text with it keeps as it is. -/
structure Lowered (c : Char) : Prop where
  lowerChar_eq : lowerChar c = [c]
  ne_sigma : c ≠ 'Σ'

/-! ## The table -/

namespace LowerRun

/-- The last character that a run has for an image. -/
def lastImage (r : LowerRun) : Nat :=
  r.image + (r.last - r.first)

/-- Whether a run has none of the images of another one: they are all before it or behind it, or
fall between its characters. -/
def misses (r : LowerRun) (images : LowerRun) : Bool :=
  Nat.blt images.lastImage r.first || Nat.blt r.last images.image ||
    (Nat.ble r.first images.image &&
      (Nat.beq images.last images.first || Nat.beq (images.step % r.step) 0) &&
      !Nat.beq ((images.image - r.first) % r.step) 0)

theorem lower?_of_misses {r images : LowerRun} (h : r.misses images = true) {k : Nat}
    (hk : k ≤ images.last - images.first) (hstep : k % images.step = 0) :
    r.lower? (images.image + k) = none := by
  simp only [misses, Bool.or_eq_true, Bool.and_eq_true, Nat.blt_eq, Nat.ble_eq, Nat.beq_eq,
    Bool.not_eq_true', lastImage] at h
  refine if_neg fun hrange => ?_
  obtain ⟨hfirst, hlast, hmod⟩ := hrange
  rcases h with (h | h) | ⟨⟨hle, hsteps⟩, hne⟩
  · omega
  · omega
  · -- each image is as far from the characters of the run as the first one
    have hkr : k % r.step = 0 := by
      rcases hsteps with heq | hsteps
      · have hzero : k = 0 := by omega
        rw [hzero, Nat.zero_mod]
      · exact Nat.mod_eq_zero_of_dvd
          ((Nat.dvd_of_mod_eq_zero hsteps).trans (Nat.dvd_of_mod_eq_zero hstep))
    rw [show images.image + k - r.first = images.image - r.first + k by omega, Nat.add_mod, hkr,
      Nat.add_zero, Nat.mod_mod] at hmod
    rw [hmod] at hne
    cases hne

/-- Whether the images of a run are characters with no image in the table. -/
def isFinal (images : LowerRun) : Bool :=
  (Nat.blt images.lastImage 0xD800 || Nat.blt 0xDFFF images.image) &&
    Nat.blt images.lastImage 0x110000 &&
    (Nat.blt images.lastImage 0x130 || Nat.blt 0x130 images.image) &&
    lowerRuns.all (·.misses images)

end LowerRun

theorem lowerRuns_all_isFinal : lowerRuns.all LowerRun.isFinal = true := by
  decide +kernel

/-- What the table gives for a character is a character for which the table has none. -/
theorem lowerRuns_of_eq_some {c : Char} {n : Nat}
    (h : lowerRuns.findSome? (·.lower? c.toNat) = some n) :
    (Char.ofNat n).toNat = n ∧ n ≠ 0x130 ∧ lowerRuns.findSome? (·.lower? n) = none := by
  obtain ⟨r, hr, hlower⟩ := List.exists_of_findSome?_eq_some h
  have hfinal := List.all_eq_true.1 lowerRuns_all_isFinal r hr
  simp only [LowerRun.isFinal, Bool.and_eq_true, Bool.or_eq_true, Nat.blt_eq, List.all_eq_true,
    LowerRun.lastImage] at hfinal
  obtain ⟨⟨⟨hsurrogate, hlt⟩, hdotted⟩, hmisses⟩ := hfinal
  unfold LowerRun.lower? at hlower
  split at hlower
  · next hrange =>
    obtain ⟨hfirst, hlast, hstep⟩ := hrange
    obtain rfl := Option.some.inj hlower
    refine ⟨?_, by omega, ?_⟩
    · have hvalid : (r.image + (c.toNat - r.first)).isValidChar := by
        unfold Nat.isValidChar
        omega
      rw [Char.ofNat, dif_pos hvalid]
      rfl
    · refine List.findSome?_eq_none_iff.2 fun r' hr' => ?_
      exact LowerRun.lower?_of_misses (hmisses r' hr') (by omega) hstep
  · cases hlower

/-! ## Characters -/

theorem lowered_of_ascii {c : Char} (hlt : c.toNat < 0x80) (h : c.toLower = c) : Lowered c := by
  refine ⟨by rw [lowerChar, if_pos hlt, h], ?_⟩
  rintro rfl
  exact absurd hlt (by decide)

/-- A character for which the table has no image stays, but for the dotted capital I. -/
theorem lowered_of_lowerRuns {c : Char} (hdotted : c.toNat ≠ 0x130)
    (h : lowerRuns.findSome? (·.lower? c.toNat) = none) : Lowered c := by
  by_cases hlt : c.toNat < 0x80
  · refine lowered_of_ascii hlt ?_
    -- the first run has the ASCII capitals
    have hcapital : ¬ (0x41 ≤ c.toNat ∧ c.toNat ≤ 0x5A) := by
      have hfirst := List.findSome?_eq_none_iff.1 h ⟨0x41, 0x5A, 1, 0x61⟩ List.mem_cons_self
      simpa [LowerRun.lower?, Nat.mod_one] using hfirst
    have hall : ∀ n : Fin 0x80, ¬ (0x41 ≤ n.val ∧ n.val ≤ 0x5A) →
        (Char.ofNat n.val).toLower = Char.ofNat n.val := by
      decide
    have hc := hall ⟨c.toNat, hlt⟩ hcapital
    rwa [Char.ofNat_toNat] at hc
  · have hne : c ≠ '\u0130' := fun heq => hdotted (heq ▸ rfl)
    refine ⟨by simp [lowerChar, hlt, hne, h], ?_⟩
    rintro rfl
    revert h
    decide +kernel

theorem lowered_of_mem_lowerChar {c d : Char} (hd : d ∈ lowerChar c) : Lowered d := by
  unfold lowerChar at hd
  split at hd
  · next hlt =>
    have hall : ∀ n : Fin 0x80, (Char.ofNat n.val).toLower.toNat < 0x80 ∧
        (Char.ofNat n.val).toLower.toLower = (Char.ofNat n.val).toLower := by
      decide
    obtain ⟨hlower, hsame⟩ := hall ⟨c.toNat, hlt⟩
    rw [Char.ofNat_toNat] at hlower hsame
    rw [List.mem_singleton] at hd
    exact hd ▸ lowered_of_ascii hlower hsame
  · split at hd
    · simp only [List.mem_cons, List.not_mem_nil, or_false] at hd
      rcases hd with rfl | rfl
      · exact lowered_of_ascii (by decide) (by decide)
      · exact lowered_of_lowerRuns (by decide) (by decide +kernel)
    · next hdotted =>
      split at hd
      · next n hn =>
        obtain ⟨htoNat, hne, hnone⟩ := lowerRuns_of_eq_some hn
        rw [List.mem_singleton] at hd
        rw [hd]
        exact lowered_of_lowerRuns (by rwa [htoNat]) (by rwa [htoNat])
      · next hnone =>
        rw [List.mem_singleton] at hd
        rw [hd]
        refine lowered_of_lowerRuns (fun heq => hdotted ?_) hnone
        rw [← Char.ofNat_toNat c, heq]

/-! ## Texts -/

/-- The lower-case form of a text has only characters that stay. -/
theorem lowered_of_mem_lowercase {cs : List Char} {d : Char} (hd : d ∈ lowercase cs) :
    Lowered d := by
  suffices hafter : ∀ before, d ∈ lowercaseAfter before cs → Lowered d from hafter [] hd
  clear hd
  induction cs with
  | nil => exact fun _ hd => nomatch hd
  | cons c cs ih =>
    intro before hd
    rw [lowercaseAfter] at hd
    rcases List.mem_append.1 hd with hd | hd
    · split at hd
      · -- both small sigmas stay
        have hsigma : d = 'ς' ∨ d = 'σ' := by
          split at hd <;> simp_all
        rcases hsigma with rfl | rfl
        · exact lowered_of_lowerRuns (by decide) (by decide +kernel)
        · exact lowered_of_lowerRuns (by decide) (by decide +kernel)
      · exact lowered_of_mem_lowerChar hd
    · exact ih _ hd

theorem lowercase_eq_nil_iff {cs : List Char} : lowercase cs = [] ↔ cs = [] := by
  have hlower (c : Char) : lowerChar c ≠ [] := by
    unfold lowerChar
    repeat' split
    all_goals exact List.cons_ne_nil _ _
  cases cs with
  | nil => exact ⟨fun _ => rfl, fun _ => rfl⟩
  | cons c cs =>
    refine iff_of_false (fun h => ?_) (List.cons_ne_nil c cs)
    rw [lowercase, lowercaseAfter, List.append_eq_nil_iff] at h
    split at h
    · split at h <;> simp at h
    · exact hlower c h.1

/-- A text of characters that stay is its own lower-case form. -/
theorem lowercase_eq_self {cs : List Char} (h : ∀ c ∈ cs, Lowered c) : lowercase cs = cs := by
  suffices hafter : ∀ before, lowercaseAfter before cs = cs from hafter []
  induction cs with
  | nil => exact fun _ => rfl
  | cons c cs ih =>
    intro before
    rw [List.forall_mem_cons] at h
    rw [lowercaseAfter, if_neg h.1.ne_sigma, h.1.lowerChar_eq, ih h.2]
    rfl

end Ldap.Text
