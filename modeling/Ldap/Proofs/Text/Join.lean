import Mathlib.Tactic

/-!
# Joined texts

Texts that a character joins can be told apart again if in each of them that character stands
behind backslashes only.
-/

namespace Ldap.Text

/-- A text in which the characters of `stop` stand behind backslashes only, and at the end of which
no backslash waits for a character. -/
inductive Sealed (stop : Char → Bool) : List Char → Prop
  | nil : Sealed stop []
  | plain {c : Char} {cs : List Char} (hescape : c ≠ '\\') (hstop : stop c = false)
    (h : Sealed stop cs) : Sealed stop (c :: cs)
  | escape {c : Char} {cs : List Char} (h : Sealed stop cs) : Sealed stop ('\\' :: c :: cs)

section Sealed

variable {stop : Char → Bool} {cs ds rest rest' : List Char}

theorem sealed_of_forall (h : ∀ c ∈ cs, c ≠ '\\' ∧ stop c = false) : Sealed stop cs := by
  induction cs with
  | nil => exact .nil
  | cons c cs ih =>
    have hc := h c List.mem_cons_self
    exact .plain hc.1 hc.2 (ih fun d hd => h d (List.mem_cons_of_mem c hd))

/-- Two texts in which every stop is escaped can be put together; no backslash at the end of one
reaches into the other. -/
theorem Sealed.append (hcs : Sealed stop cs) (hds : Sealed stop ds) : Sealed stop (cs ++ ds) := by
  induction hcs with
  | nil => exact hds
  | plain hescape hstop _ ih => exact .plain hescape hstop ih
  | escape _ ih => exact .escape ih

theorem Sealed.mono {stop' : Char → Bool} (h : Sealed stop cs)
    (hle : ∀ c, stop c = false → stop' c = false) : Sealed stop' cs := by
  induction h with
  | nil => exact .nil
  | plain hescape hstop _ ih => exact .plain hescape (hle _ hstop) ih
  | escape _ ih => exact .escape ih

/-- A sealed text with nothing or a stop behind it ends where it does in any other spelling of the
whole. -/
theorem Sealed.append_inj (hcs : Sealed stop cs) (hds : Sealed stop ds)
    (hbackslash : stop '\\' = false) (hrest : ∀ c ∈ rest.head?, stop c = true)
    (hrest' : ∀ c ∈ rest'.head?, stop c = true) (heq : cs ++ rest = ds ++ rest') :
    cs = ds ∧ rest = rest' := by
  induction hcs generalizing ds with
  | nil =>
    cases hds with
    | nil => exact ⟨rfl, heq⟩
    | plain _ hstop => simp_all
    | escape => simp_all
  | plain hescape hstop _ ih =>
    cases hds with
    | nil =>
      have hhead := hrest' _ (by rw [← List.nil_append rest', ← heq]; rfl)
      rw [hstop] at hhead
      cases hhead
    | plain _ _ hds =>
      obtain ⟨rfl, htails⟩ := List.cons.inj heq
      obtain ⟨rfl, hrests⟩ := ih hds htails
      exact ⟨rfl, hrests⟩
    | escape => exact absurd (List.cons.inj heq).1 hescape
  | escape _ ih =>
    cases hds with
    | nil =>
      have hhead := hrest' _ (by rw [← List.nil_append rest', ← heq]; rfl)
      rw [hbackslash] at hhead
      cases hhead
    | plain hescape => exact absurd (List.cons.inj heq).1.symm hescape
    | escape hds =>
      obtain ⟨rfl, htails⟩ := List.cons.inj (List.cons.inj heq).2
      obtain ⟨rfl, hrests⟩ := ih hds htails
      exact ⟨rfl, hrests⟩

end Sealed

section Join

variable {stop : Char → Bool} {sep : Char}

/-- Joined texts are the first one and then each further one behind the character that joins. -/
theorem intercalate_cons (x : List Char) (xs : List (List Char)) :
    [sep].intercalate (x :: xs) = x ++ xs.flatMap (sep :: ·) := by
  induction xs generalizing x with
  | nil => simp
  | cons y ys ih =>
    rw [List.intercalate_cons_cons, ih]
    simp

theorem head?_flatMap_cons (xs : List (List Char)) :
    ∀ c ∈ (xs.flatMap (sep :: ·)).head?, c = sep := by
  cases xs with
  | nil => simp
  | cons x xs => simp

/-- Texts with a separator in front of each are told apart, as the separator stands in none of them
unescaped. -/
theorem flatMap_cons_inj {xs ys : List (List Char)} (hbackslash : stop '\\' = false)
    (hsep : stop sep = true) (hxs : ∀ x ∈ xs, Sealed stop x) (hys : ∀ y ∈ ys, Sealed stop y)
    (heq : xs.flatMap (sep :: ·) = ys.flatMap (sep :: ·)) : xs = ys := by
  have hstop (zs : List (List Char)) : ∀ c ∈ (zs.flatMap (sep :: ·)).head?, stop c = true := by
    intro c hc
    rw [head?_flatMap_cons zs c hc, hsep]
  induction xs generalizing ys with
  | nil =>
    cases ys with
    | nil => rfl
    | cons y ys => simp at heq
  | cons x xs ih =>
    cases ys with
    | nil => simp at heq
    | cons y ys =>
      rw [List.forall_mem_cons] at hxs hys
      have htexts : x ++ xs.flatMap (sep :: ·) = y ++ ys.flatMap (sep :: ·) := by simpa using heq
      obtain ⟨rfl, hrests⟩ :=
        hxs.1.append_inj hys.1 hbackslash (hstop xs) (hstop ys) htexts
      rw [ih hxs.2 hys.2 hrests]

/-- Sealed texts, none of them empty, can be told from what they are when joined. -/
theorem intercalate_inj {xs ys : List (List Char)} (hbackslash : stop '\\' = false)
    (hsep : stop sep = true) (hxs : ∀ x ∈ xs, Sealed stop x ∧ x ≠ [])
    (hys : ∀ y ∈ ys, Sealed stop y ∧ y ≠ [])
    (heq : [sep].intercalate xs = [sep].intercalate ys) : xs = ys := by
  cases xs with
  | nil =>
    cases ys with
    | nil => rfl
    | cons y ys =>
      rw [intercalate_cons, List.intercalate_nil] at heq
      exact absurd (List.append_eq_nil_iff.1 heq.symm).1 (hys y List.mem_cons_self).2
  | cons x xs =>
    cases ys with
    | nil =>
      rw [intercalate_cons, List.intercalate_nil] at heq
      exact absurd (List.append_eq_nil_iff.1 heq).1 (hxs x List.mem_cons_self).2
    | cons y ys =>
      -- a further character in front makes the first texts like all others
      refine flatMap_cons_inj hbackslash hsep (fun z hz => (hxs z hz).1)
        (fun z hz => (hys z hz).1) ?_
      rw [intercalate_cons, intercalate_cons] at heq
      simp [heq]

/-- A separator that is no stop adds none. -/
theorem sealed_flatMap_cons {xs : List (List Char)} (hbackslash : sep ≠ '\\')
    (hsep : stop sep = false) (hxs : ∀ x ∈ xs, Sealed stop x) :
    Sealed stop (xs.flatMap (sep :: ·)) := by
  induction xs with
  | nil => exact .nil
  | cons x xs ih =>
    rw [List.forall_mem_cons] at hxs
    have hx : Sealed stop (sep :: x) := .plain hbackslash hsep hxs.1
    exact hx.append (ih hxs.2)

/-- What is joined of sealed texts is sealed against fewer characters, which do not join. -/
theorem Sealed.intercalate {xs : List (List Char)} (hbackslash : sep ≠ '\\')
    (hsep : stop sep = false) (hxs : ∀ x ∈ xs, Sealed stop x) :
    Sealed stop ([sep].intercalate xs) := by
  cases xs with
  | nil => exact .nil
  | cons x xs =>
    rw [List.forall_mem_cons] at hxs
    rw [intercalate_cons]
    exact hxs.1.append (sealed_flatMap_cons hbackslash hsep hxs.2)

end Join
end Ldap.Text
