import Ldap.Operation.Response
import Ldap.Proofs.Operation.Entry

/-!
# Responses on the wire

Every response is read back from the element it is written as, unless one of its texts is there but
empty: a reader takes an empty text for a missing one. The members that may be missing are read one
by one, and what was read of them never takes more room than they did.
-/

namespace Ldap

open Ber (Element Tag)

/-! ## The fields that end an operation -/

namespace Response

/-- A response without texts that would be read as missing. -/
def Expressible (r : Response) : Prop :=
  r.matchedDn ≠ some "" ∧ r.diagnostic ≠ some ""

/-- An empty text on the wire stands for none. So a text comes back unless it is an empty one. -/
theorem eq_nonempty?_iff {s : String} {o : Option String} :
    o = nonempty? s ↔ s = o.getD "" ∧ o ≠ some "" := by
  unfold nonempty?
  split
  · next hempty =>
    obtain rfl : s = "" := by simpa using hempty
    -- an empty text is read as a missing one, which in turn is written as an empty text
    cases o with
    | none => simp
    | some t =>
      simp only [reduceCtorEq, Option.getD_some, false_iff]
      intro h
      rcases h with ⟨rfl, hne⟩
      exact hne rfl
  · next hne =>
    replace hne : s ≠ "" := by simpa using hne
    cases o with
    | none => simpa using hne
    | some t =>
      simp only [Option.some.injEq, Option.getD_some, ne_eq]
      constructor
      · intro heq
        subst heq
        exact ⟨rfl, hne⟩
      · intro h
        rcases h with ⟨rfl, -⟩
        rfl

/-- The members that are always there. -/
def head (r : Response) : List Element :=
  [.enumerated r.code.value.toInt, .string (r.matchedDn.getD ""), .string (r.diagnostic.getD "")]

/-- The member for referrals, if there are any. -/
def referralMember (referrals : List String) : List Element :=
  if referrals.isEmpty then [] else [.constructed referralsTag (referrals.map .string)]

theorem members_eq (r : Response) : r.members = r.head ++ referralMember r.referrals := rfl

/-- The leading members that a response is read from. -/
structure ReadsHead (r : Response) (code matchedDn diagnostic : Element) : Prop where
  code : code.asEnumerated = .ok r.code.value
  matchedDn : matchedDn.asString = .ok (r.matchedDn.getD "")
  diagnostic : diagnostic.asString = .ok (r.diagnostic.getD "")
  expressible : r.Expressible
  referrals : r.referrals = []

/-- The first three members make the head, and the others are left for the reader of the response.
-/
theorem decodeHead_eq_ok_iff {context : String} {es rest : List Element} {r : Response} :
    decodeHead context es = .ok (r, rest) ↔
      ∃ code matchedDn diagnostic, es = code :: matchedDn :: diagnostic :: rest ∧
        r.ReadsHead code matchedDn diagnostic := by
  unfold decodeHead
  constructor
  · intro h
    split at h
    · simp only [bind_eq_ok_iff, liftM_eq_ok_iff, pure_eq_ok_iff, Prod.mk.injEq] at h
      rcases h with ⟨code, hcode, dn, hdn, diagnostic, hdiagnostic, rfl, rfl⟩
      rcases eq_nonempty?_iff.1 (rfl : nonempty? dn = _) with ⟨hdn', hne⟩
      rcases eq_nonempty?_iff.1 (rfl : nonempty? diagnostic = _) with ⟨hdiagnostic', hne'⟩
      -- the texts are what is written for them, as none of them is there and empty
      rw [hdn'] at hdn
      rw [hdiagnostic'] at hdiagnostic
      exact ⟨_, _, _, rfl, hcode, hdn, hdiagnostic, ⟨hne, hne'⟩, rfl⟩
    · cases h
  · intro h
    rcases h with ⟨x, y, z, rfl, h⟩
    simp only [bind_eq_ok_iff, liftM_eq_ok_iff, pure_eq_ok_iff]
    refine ⟨_, h.code, _, h.matchedDn, _, h.diagnostic, ?_⟩
    rw [← eq_nonempty?_iff.2 ⟨rfl, h.expressible.1⟩, ← eq_nonempty?_iff.2 ⟨rfl, h.expressible.2⟩,
      ← h.referrals]

/-- The head of an expressible response is read back. -/
theorem readsHead_head {r : Response} (h : r.Expressible) :
    ReadsHead { r with referrals := [] } (.enumerated r.code.value.toInt)
      (.string (r.matchedDn.getD "")) (.string (r.diagnostic.getD "")) where
  code := Element.asEnumeratedTagged_eq_ok_iff.2 ⟨rfl, Ber.Integer.decode32_encode _ _⟩
  matchedDn := Element.asStringTagged_stringTagged _ _
  diagnostic := Element.asStringTagged_stringTagged _ _
  expressible := h
  referrals := rfl

/-- A head is written in no more room than it was read from. -/
theorem ReadsHead.size_head_le {r : Response} {code matchedDn diagnostic : Element}
    (h : r.ReadsHead code matchedDn diagnostic) :
    Element.size r.head ≤ Element.size [code, matchedDn, diagnostic] := by
  have hcode := Faithful.enumerated.shrinks h.code
  have hdn := Faithful.string.shrinks h.matchedDn
  have hdiagnostic := Faithful.string.shrinks h.diagnostic
  simp only [head, Element.size_cons, Element.size_nil]
  omega

/-- Referrals are a list of texts under a tag of their own. -/
theorem decodeReferrals_eq_ok_iff {e : Element} {referrals : List String} :
    decodeReferrals e = .ok referrals ↔
      Lists (fun x s => x.asString = .ok s) referralsTag e referrals := by
  unfold decodeReferrals
  simp only [bind_eq_ok_iff, liftM_eq_ok_iff, Element.asSequenceTagged_eq_ok_iff,
    stringsOf_eq_ok_iff]
  rfl

/-- Referrals are written in no more room than they were read from, and not at all if there is none.
-/
theorem size_referralMember_le {e : Element} {referrals : List String}
    (h : decodeReferrals e = .ok referrals) :
    Element.size (referralMember referrals) ≤ e.encode.length := by
  have hle := (Faithful.string.lists referralsTag).shrinks (decodeReferrals_eq_ok_iff.1 h)
  unfold referralMember
  split
  · simp
  · simpa using hle

/-- A step that takes the referrals in is made exactly if there are any. -/
theorem foldlM_referralMember {β : Type} {read : β → Element → Except ProtocolError β} {b b' : β}
    {referrals : List String} (hshort : Element.size (referralMember referrals) < 2 ^ 32)
    (hnil : referrals = [] → b = b')
    (hread : ∀ e, e.tag = referralsTag → decodeReferrals e = .ok referrals → read b e = .ok b') :
    (referralMember referrals).foldlM read b = .ok b' := by
  unfold referralMember at hshort ⊢
  split
  · next hempty =>
    rw [hnil (by simpa using hempty)]
    rfl
  · next hne =>
    rw [if_neg hne, Element.size_cons] at hshort
    have hreferrals := (Faithful.string.lists referralsTag).reads (a := referrals)
      (fun _ _ => trivial) (Element.short_of_length_lt (by simpa using hshort))
    rw [List.foldlM_cons,
      hread _ (Element.tag_constructed _ _) (decodeReferrals_eq_ok_iff.2 hreferrals)]
    rfl

/-- A plain response is a head with referrals behind it, or with nothing. -/
theorem decode_eq_ok_iff {e : Element} {tag : Tag} {r : Response} :
    decode e tag = .ok r ↔
      ∃ code matchedDn diagnostic rest,
        e.Holds tag (code :: matchedDn :: diagnostic :: rest) ∧
        ReadsHead { r with referrals := [] } code matchedDn diagnostic ∧
        ((rest = [] ∧ r.referrals = []) ∨
          ∃ x, rest = [x] ∧ decodeReferrals x = .ok r.referrals) := by
  unfold decode
  simp only [bind_eq_ok_iff, liftM_eq_ok_iff, Element.asSequenceTagged_eq_ok_iff,
    checkCount_eq_ok_iff]
  constructor
  · intro h
    rcases h with ⟨es, hes, -, ⟨-, hmax⟩, ⟨r', rest⟩, hhead, h⟩
    rcases decodeHead_eq_ok_iff.1 hhead with ⟨x, y, z, rfl, hread⟩
    have hlen := hmax 4 rfl
    dsimp only at h
    -- the head alone, or the head and referrals
    cases rest with
    | nil =>
      obtain rfl := pure_eq_ok_iff.1 h
      refine ⟨x, y, z, [], hes, ?_, .inl ⟨rfl, hread.referrals⟩⟩
      rwa [← hread.referrals]
    | cons u rest =>
      obtain rfl : rest = [] := List.length_eq_zero_iff.1 (by simp at hlen; omega)
      dsimp only at h
      split at h
      · rcases bind_eq_ok_iff.1 h with ⟨referrals, hreferrals, h⟩
        obtain rfl := pure_eq_ok_iff.1 h
        refine ⟨x, y, z, [u], hes, ?_, .inr ⟨u, rfl, hreferrals⟩⟩
        rwa [← hread.referrals]
      · cases h
  · intro h
    rcases h with ⟨x, y, z, rest, hes, hread, hrest⟩
    rcases hrest with ⟨rfl, hnil⟩ | ⟨u, rfl, hu⟩
    · refine ⟨_, hes, (), by simp, _, decodeHead_eq_ok_iff.2 ⟨x, y, z, rfl, hread⟩, ?_⟩
      rw [← hnil]
      rfl
    · refine ⟨_, hes, (), by simp, _, decodeHead_eq_ok_iff.2 ⟨x, y, z, rfl, hread⟩, ?_⟩
      dsimp only
      rw [if_pos (decodeReferrals_eq_ok_iff.1 hu).choose_spec.1.tag_eq]
      exact bind_eq_ok_iff.2 ⟨_, hu, rfl⟩

theorem faithful (tag : Tag) :
    Faithful (fun r => encode r tag) (fun e r => decode e tag = .ok r) Expressible where
  reads {r} hgood h := by
    refine decode_eq_ok_iff.2 ⟨_, _, _, referralMember r.referrals, Element.holds_constructed h,
      readsHead_head hgood, ?_⟩
    -- no referrals are written as no member
    by_cases hnil : r.referrals = []
    · exact .inl ⟨by simp [referralMember, hnil], hnil⟩
    · have hmember : referralMember r.referrals
          = [.constructed referralsTag (r.referrals.map .string)] := by
        simp [referralMember, hnil]
      refine .inr ⟨_, hmember, decodeReferrals_eq_ok_iff.2 ?_⟩
      refine (Faithful.string.lists referralsTag).reads (fun _ _ => trivial) (h.member ?_)
      rw [members_eq, hmember]
      simp
  good h := by
    rcases decode_eq_ok_iff.1 h with ⟨_, _, _, _, -, hread, -⟩
    exact hread.expressible
  shrinks {e r} h := by
    rcases decode_eq_ok_iff.1 h with ⟨x, y, z, rest, hes, hread, hrest⟩
    have hhead := hread.size_head_le
    have hreferrals : Element.size (referralMember r.referrals) ≤ Element.size rest := by
      rcases hrest with ⟨-, hnil⟩ | ⟨u, rfl, hu⟩
      · simp [referralMember, hnil]
      · simpa using size_referralMember_le hu
    apply hes.constructed_le tag
    rw [members_eq, Element.size_append]
    exact le_trans (Nat.add_le_add hhead hreferrals) (by simp; omega)

/-! ## What may follow -/

/-- The members that a kind of operation lets follow the head of a response, each of which may be
missing. They are read one by one, whatever their order. -/
structure Trailer (ρ : Type) where
  response : ρ → Response
  /-- The members as they are written. -/
  optionals : ρ → List Element
  /-- How many there may be. -/
  count : Nat
  /-- What a head is taken for as long as nothing followed. -/
  start : Response → ρ
  read : ρ → Element → Except ProtocolError ρ
  length_optionals_le : ∀ r, (optionals r).length ≤ count
  response_start : ∀ head, response (start head) = head
  optionals_start : ∀ head, head.referrals = [] → optionals (start head) = []
  /-- What was read takes no more room than what it was read from, and the head stays. -/
  read_invariant : ∀ {head : Response} {n : Nat} {r r' : ρ} {e : Element},
    { response r with referrals := [] } = head ∧ Element.size (optionals r) ≤ n →
    read r e = .ok r' →
    { response r' with referrals := [] } = head ∧
      Element.size (optionals r') ≤ n + e.encode.length
  foldlM_optionals : ∀ r, Element.size (optionals r) < 2 ^ 32 →
    (optionals r).foldlM read (start { response r with referrals := [] }) = .ok r

namespace Trailer

variable {ρ : Type} (x : Trailer ρ)

/-- An element with the members of a response and those of its trailer. -/
def Reads (tag : Tag) (e : Element) (r : ρ) : Prop :=
  ∃ head code matchedDn diagnostic rest,
    e.Holds tag (code :: matchedDn :: diagnostic :: rest) ∧ rest.length ≤ x.count ∧
    ReadsHead head code matchedDn diagnostic ∧ rest.foldlM x.read (x.start head) = .ok r

/-- A response with members behind the head is read from left to right. -/
theorem decode_eq_ok_iff {context : String} {tag : Tag} {e : Element} {r : ρ} :
    (do
      let members ← e.asSequenceTagged tag
      checkCount context 3 (some (3 + x.count)) members
      let (response, rest) ← decodeHead context members
      rest.foldlM x.read (x.start response) : Except ProtocolError ρ) = .ok r ↔
      x.Reads tag e r := by
  simp only [bind_eq_ok_iff, liftM_eq_ok_iff, Element.asSequenceTagged_eq_ok_iff,
    checkCount_eq_ok_iff]
  constructor
  · intro h
    rcases h with ⟨es, hes, -, ⟨-, hmax⟩, ⟨head, rest⟩, hhead, h⟩
    rcases decodeHead_eq_ok_iff.1 hhead with ⟨code, matchedDn, diagnostic, rfl, hread⟩
    have hlen := hmax _ rfl
    simp only [List.length_cons] at hlen
    exact ⟨head, code, matchedDn, diagnostic, rest, hes, by omega, hread, h⟩
  · intro h
    rcases h with ⟨head, code, matchedDn, diagnostic, rest, hes, hlen, hread, h⟩
    exact ⟨_, hes, (), by simp; omega, _,
      decodeHead_eq_ok_iff.2 ⟨code, matchedDn, diagnostic, rfl, hread⟩, h⟩

/-- What stands behind the head changes nothing in it, and is written again in no more room. -/
theorem of_foldlM {head : Response} {rest : List Element} {r : ρ} (hnil : head.referrals = [])
    (h : rest.foldlM x.read (x.start head) = .ok r) :
    { x.response r with referrals := [] } = head ∧
      Element.size (x.optionals r) ≤ Element.size rest := by
  have hstart : { x.response (x.start head) with referrals := [] } = head := by
    rw [x.response_start, ← hnil]
  -- at first there are no optional members, and no room was taken
  have hempty : Element.size (x.optionals (x.start head)) ≤ 0 := by
    rw [x.optionals_start head hnil, Element.size_nil]
  have hlast := foldlM_invariant (n := 0)
    (motive := fun n r =>
      { x.response r with referrals := [] } = head ∧ Element.size (x.optionals r) ≤ n)
    x.read_invariant ⟨hstart, hempty⟩ h
  rwa [Nat.zero_add] at hlast

/-- A response with a trailer is faithful if the response is expressible. -/
theorem faithful {tag : Tag} {write : ρ → Element} {Reads : Element → ρ → Prop}
    (hwrite : ∀ r, write r = .constructed tag ((x.response r).head ++ x.optionals r))
    (hread : ∀ e r, Reads e r ↔ x.Reads tag e r) :
    Faithful write Reads fun r => (x.response r).Expressible where
  reads {r} hgood h := by
    rw [hwrite] at h ⊢
    have hsize := h.size
    rw [Element.size_append] at hsize
    exact (hread _ _).2 ⟨_, _, _, _, x.optionals r, Element.holds_constructed h,
      x.length_optionals_le r, readsHead_head hgood, x.foldlM_optionals r (by omega)⟩
  good {e r} h := by
    obtain ⟨head, _, _, _, rest, -, -, hhead, hrest⟩ := (hread _ _).1 h
    have hexpressible := hhead.expressible
    rwa [← (x.of_foldlM hhead.referrals hrest).1] at hexpressible
  shrinks {e r} h := by
    obtain ⟨head, _, _, _, rest, hes, -, hhead, hrest⟩ := (hread _ _).1 h
    obtain ⟨rfl, hoptionals⟩ := x.of_foldlM hhead.referrals hrest
    rw [hwrite]
    apply hes.constructed_le tag
    rw [Element.size_append]
    exact le_trans (Nat.add_le_add hhead.size_head_le hoptionals) (by simp; omega)

end Trailer

theorem length_referralMember_le (referrals : List String) :
    (referralMember referrals).length ≤ 1 := by
  unfold referralMember
  split <;> simp

end Response

/-! ## Bind -/

namespace BindResponse

/-- The members that may be missing. -/
def optionals (r : BindResponse) : List Element :=
  Response.referralMember r.response.referrals
    ++ r.saslCredentials.toList.map (⟨saslCredentialsTag, ·⟩)

/-- What was read of the optional members takes no more room than they did, and the others stay. -/
theorem decodeOptional_invariant {head : Response} {n : Nat} {r r' : BindResponse} {e : Element}
    (h : { r.response with referrals := [] } = head ∧ Element.size r.optionals ≤ n)
    (hread : decodeOptional r e = .ok r') :
    { r'.response with referrals := [] } = head ∧
      Element.size r'.optionals ≤ n + e.encode.length := by
  rcases h with ⟨rfl, hn⟩
  unfold decodeOptional at hread
  simp only [optionals, Element.size_append] at hn ⊢
  -- what is replaced only leaves more room
  split at hread
  · rcases bind_eq_ok_iff.1 hread with ⟨referrals, hreferrals, hread⟩
    obtain rfl := pure_eq_ok_iff.1 hread
    have hle := Response.size_referralMember_le hreferrals
    exact ⟨rfl, by dsimp only; omega⟩
  split at hread
  · next htag =>
    obtain rfl := pure_eq_ok_iff.1 hread
    rcases e with ⟨tag, content⟩
    obtain rfl : tag = saslCredentialsTag := htag
    exact ⟨rfl, by simp; omega⟩
  · cases hread

/-- Referrals and credentials are read back, in the order in which they are written. -/
theorem foldlM_optionals (r : BindResponse) (hshort : Element.size r.optionals < 2 ^ 32) :
    r.optionals.foldlM decodeOptional ⟨{ r.response with referrals := [] }, none⟩ = .ok r := by
  rcases r with ⟨response, credentials⟩
  simp only [optionals, Element.size_append] at hshort ⊢
  -- referrals come first, which take the head to the whole response
  rw [List.foldlM_append, bind_eq_ok_iff]
  refine ⟨⟨response, none⟩, Response.foldlM_referralMember (by omega) ?_ ?_, ?_⟩
  · intro hnil
    rw [← show response.referrals = [] from hnil]
  · intro e htag hreferrals
    rw [decodeOptional, if_pos htag, hreferrals]
    rfl
  · cases credentials with
    | none => rfl
    | some bytes =>
      have hne : saslCredentialsTag ≠ Response.referralsTag := by decide
      simp [decodeOptional, hne, bind, Except.bind, pure, Except.pure]

/-- Referrals and the credentials of the server. -/
def trailer : Response.Trailer BindResponse where
  response := response
  optionals := optionals
  count := 2
  start head := ⟨head, none⟩
  read := decodeOptional
  length_optionals_le r := by
    have hle := Response.length_referralMember_le r.response.referrals
    unfold optionals
    cases r.saslCredentials <;> simp <;> omega
  response_start _ := rfl
  optionals_start head hnil := by simp [optionals, hnil, Response.referralMember]
  read_invariant := decodeOptional_invariant
  foldlM_optionals := foldlM_optionals

theorem decode_eq_ok_iff {e : Element} {r : BindResponse} :
    decode e = .ok r ↔ trailer.Reads tag e r :=
  trailer.decode_eq_ok_iff

theorem faithful :
    Faithful encode (fun e r => decode e = .ok r) fun r => r.response.Expressible :=
  trailer.faithful
    (fun r => by
      show _ = Element.constructed tag (r.response.head ++ r.optionals)
      rw [encode, optionals, Response.members_eq, List.append_assoc])
    fun _ _ => decode_eq_ok_iff

end BindResponse

/-! ## Extended -/

namespace ExtendedResponse

/-- The members that may be missing. -/
def optionals (r : ExtendedResponse) : List Element :=
  Response.referralMember r.response.referrals
    ++ (r.oid.toList.map (.stringTagged oidTag) ++ r.value.toList.map (⟨valueTag, ·⟩))

/-- What was read of the optional members takes no more room than they did, and the others stay. -/
theorem decodeOptional_invariant {head : Response} {n : Nat} {r r' : ExtendedResponse} {e : Element}
    (h : { r.response with referrals := [] } = head ∧ Element.size r.optionals ≤ n)
    (hread : decodeOptional r e = .ok r') :
    { r'.response with referrals := [] } = head ∧
      Element.size r'.optionals ≤ n + e.encode.length := by
  rcases h with ⟨rfl, hn⟩
  unfold decodeOptional at hread
  simp only [optionals, Element.size_append] at hn ⊢
  split at hread
  · rcases bind_eq_ok_iff.1 hread with ⟨referrals, hreferrals, hread⟩
    obtain rfl := pure_eq_ok_iff.1 hread
    have hle := Response.size_referralMember_le hreferrals
    exact ⟨rfl, by dsimp only; omega⟩
  split at hread
  · rcases bind_eq_ok_iff.1 hread with ⟨oid, hoid, hread⟩
    obtain rfl := pure_eq_ok_iff.1 hread
    obtain rfl := Element.asStringTagged_eq_ok_iff.1 (liftM_eq_ok_iff.1 hoid)
    exact ⟨rfl, by simp; omega⟩
  split at hread
  · next htag =>
    obtain rfl := pure_eq_ok_iff.1 hread
    rcases e with ⟨tag, content⟩
    obtain rfl : tag = valueTag := htag
    exact ⟨rfl, by simp; omega⟩
  · cases hread

/-- So are the referrals, the name and the value of an extended response. -/
theorem foldlM_optionals (r : ExtendedResponse) (hshort : Element.size r.optionals < 2 ^ 32) :
    r.optionals.foldlM decodeOptional ⟨{ r.response with referrals := [] }, none, none⟩
      = .ok r := by
  rcases r with ⟨response, oid, value⟩
  simp only [optionals, Element.size_append] at hshort ⊢
  -- referrals come first, which take the head to the whole response
  rw [List.foldlM_append, bind_eq_ok_iff]
  refine ⟨⟨response, none, none⟩, Response.foldlM_referralMember (by omega) ?_ ?_, ?_⟩
  · intro hnil
    rw [← show response.referrals = [] from hnil]
  · intro e htag hreferrals
    rw [decodeOptional, if_pos htag, hreferrals]
    rfl
  · have hoid : oidTag ≠ Response.referralsTag := by decide
    have hvalue : valueTag ≠ Response.referralsTag ∧ valueTag ≠ oidTag := by decide
    cases oid <;> cases value <;>
      simp [decodeOptional, hoid, hvalue, bind, Except.bind, pure, Except.pure]

/-- Referrals, and what the operation is called and has to say. -/
def trailer : Response.Trailer ExtendedResponse where
  response := response
  optionals := optionals
  count := 3
  start head := ⟨head, none, none⟩
  read := decodeOptional
  length_optionals_le r := by
    have hle := Response.length_referralMember_le r.response.referrals
    unfold optionals
    cases r.oid <;> cases r.value <;> simp <;> omega
  response_start _ := rfl
  optionals_start head hnil := by simp [optionals, hnil, Response.referralMember]
  read_invariant := decodeOptional_invariant
  foldlM_optionals := foldlM_optionals

theorem decode_eq_ok_iff {e : Element} {r : ExtendedResponse} :
    decode e = .ok r ↔ trailer.Reads tag e r :=
  trailer.decode_eq_ok_iff

theorem faithful :
    Faithful encode (fun e r => decode e = .ok r) fun r => r.response.Expressible :=
  trailer.faithful
    (fun r => by
      show _ = Element.constructed tag (r.response.head ++ r.optionals)
      rw [encode, optionals, Response.members_eq, List.append_assoc, List.append_assoc])
    fun _ _ => decode_eq_ok_iff

end ExtendedResponse

/-! ## Intermediate -/

namespace IntermediateResponse

/-- The members, each of which may be missing. -/
def members (r : IntermediateResponse) : List Element :=
  r.oid.toList.map (.stringTagged oidTag) ++ r.value.toList.map (⟨valueTag, ·⟩)

theorem encode_eq (r : IntermediateResponse) : r.encode = .constructed tag r.members := rfl

/-- What was read of the members takes no more room than they did. -/
theorem size_members_le_of_decodeOptional {n : Nat} {r r' : IntermediateResponse} {e : Element}
    (hn : Element.size r.members ≤ n) (hread : decodeOptional r e = .ok r') :
    Element.size r'.members ≤ n + e.encode.length := by
  unfold decodeOptional at hread
  simp only [members, Element.size_append] at hn ⊢
  split at hread
  · rcases bind_eq_ok_iff.1 hread with ⟨oid, hoid, hread⟩
    obtain rfl := pure_eq_ok_iff.1 hread
    obtain rfl := Element.asStringTagged_eq_ok_iff.1 (liftM_eq_ok_iff.1 hoid)
    simp
    omega
  split at hread
  · next htag =>
    obtain rfl := pure_eq_ok_iff.1 hread
    rcases e with ⟨tag, content⟩
    obtain rfl : tag = valueTag := htag
    simp
    omega
  · cases hread

/-- The members of an intermediate response differ in their tags, so it is clear which of them are
missing. -/
theorem foldlM_members (r : IntermediateResponse) :
    r.members.foldlM decodeOptional ⟨none, none⟩ = .ok r := by
  rcases r with ⟨oid, value⟩
  have hne : valueTag ≠ oidTag := by decide
  cases oid <;> cases value <;>
    simp [members, decodeOptional, hne, bind, Except.bind, pure, Except.pure]

/-- An intermediate response has two members at most and no head. -/
theorem decode_eq_ok_iff {e : Element} {r : IntermediateResponse} :
    decode e = .ok r ↔
      ∃ es, e.Holds tag es ∧ es.length ≤ 2 ∧ es.foldlM decodeOptional ⟨none, none⟩ = .ok r := by
  unfold decode
  simp only [bind_eq_ok_iff, liftM_eq_ok_iff, Element.asSequenceTagged_eq_ok_iff,
    checkCount_eq_ok_iff]
  constructor
  · intro h
    rcases h with ⟨es, hes, -, ⟨-, hmax⟩, h⟩
    exact ⟨es, hes, hmax 2 rfl, h⟩
  · intro h
    rcases h with ⟨es, hes, hlen, h⟩
    exact ⟨es, hes, (), by simpa using hlen, h⟩

theorem faithful : Faithful encode (fun e r => decode e = .ok r) fun _ => True where
  reads {r} _ h := by
    rw [encode_eq] at h ⊢
    refine decode_eq_ok_iff.2 ⟨_, Element.holds_constructed h, ?_, foldlM_members r⟩
    unfold members
    cases r.oid <;> cases r.value <;> simp
  good _ := trivial
  shrinks {e r} h := by
    rcases decode_eq_ok_iff.1 h with ⟨es, hes, -, hread⟩
    have hsize := foldlM_invariant (n := 0) (motive := fun n r => Element.size r.members ≤ n)
      size_members_le_of_decodeOptional le_rfl hread
    rw [Nat.zero_add] at hsize
    rw [encode_eq]
    exact hes.constructed_le tag hsize

end IntermediateResponse
end Ldap
