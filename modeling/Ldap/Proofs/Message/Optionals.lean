import Ldap.Proofs.Control.Stable
import Ldap.Proofs.Filter.Wire
import Ldap.Proofs.Operation.Response
import Mathlib.Tactic

/-!
# Members that are told apart by their tags

Some elements hold members that may be missing. Each has a tag of its own, so that they may come in
any order. A tag is not refused when it occurs again: as long as there are not more members than
tags, the last one counts (`TaggedFormat.told_apart`).
-/

namespace Ldap

open Ber (Element Tag)

/-! ## Slots -/

/-- A place for what a member says, with the tag that leads there and the way to read it. -/
structure Slot (σ : Type) where
  {Value : Type}
  tag : Tag
  read : Element → Except ProtocolError Value
  put : Value → σ → σ

namespace Slot

variable {σ : Type} {slots : List (Slot σ)} {context : String} {s s' : σ} {e : Element}

/-- The slot that the tag of an element leads to. -/
def find? (slots : List (Slot σ)) (e : Element) : Option (Slot σ) :=
  slots.find? (·.tag = e.tag)

/-- Reads an element for the slot that its tag leads to. -/
def fill (context : String) (slots : List (Slot σ)) (s : σ) (e : Element) :
    Except ProtocolError σ :=
  match find? slots e with
  | some p => do return p.put (← p.read e) s
  | none => throw (.unknownTag context e.tag)

@[simp] theorem fill_nil : fill context [] s e = .error (.unknownTag context e.tag) := rfl

@[simp] theorem fill_cons (p : Slot σ) : fill context (p :: slots) s e =
    if e.tag = p.tag then (do return p.put (← p.read e) s) else fill context slots s e := by
  unfold fill find?
  by_cases htag : e.tag = p.tag
  · rw [List.find?_cons_of_pos (by simp [htag]), if_pos htag]
  · rw [List.find?_cons_of_neg (by simp [Ne.symm htag]), if_neg htag]

/-- An element that can be read for the slot that its tag leads to. -/
def Admits (slots : List (Slot σ)) (e : Element) : Prop :=
  ∃ p, find? slots e = some p ∧ ∃ v, p.read e = .ok v

/-- It makes no difference which of two slots is filled first. -/
def Commutes (p q : Slot σ) : Prop :=
  ∀ v w s, q.put w (p.put v s) = p.put v (q.put w s)

instance : Std.Symm (@Commutes σ) :=
  ⟨fun _ _ h w v s => (h v w s).symm⟩

/-- What is put into a slot takes the place of what was there, and leaves the other slots alone. -/
structure Independent (slots : List (Slot σ)) : Prop where
  replaces : ∀ p ∈ slots, ∀ v w s, p.put w (p.put v s) = p.put w s
  commutes : slots.Pairwise Commutes

/-- An element is put into one slot. -/
theorem fill_eq_ok_iff :
    fill context slots s e = .ok s' ↔
      ∃ p, find? slots e = some p ∧ ∃ v, p.read e = .ok v ∧ p.put v s = s' := by
  unfold fill
  cases find? slots e with
  | none => simp [throw, throwThe, MonadExceptOf.throw]
  | some p => simp only [Option.some.injEq, exists_eq_left', bind_eq_ok_iff, pure_eq_ok_iff]

/-- An element is taken exactly if it fits one of the slots. -/
theorem exists_fill_iff : (∃ s', fill context slots s e = .ok s') ↔ Admits slots e := by
  simp only [fill_eq_ok_iff, Admits]
  constructor
  · rintro ⟨_, p, hp, v, hv, -⟩
    exact ⟨p, hp, v, hv⟩
  · rintro ⟨p, hp, v, hv⟩
    exact ⟨_, p, hp, v, hv, rfl⟩

namespace Independent

variable (h : Independent slots) {a b : σ} {e' : Element}
include h

/-- Of two elements with the same tag the first makes no difference. -/
theorem fill_of_same (htag : e'.tag = e.tag) (ha : fill context slots s e = .ok a)
    (hb : fill context slots a e' = .ok b) : fill context slots s e' = .ok b := by
  obtain ⟨p, hp, v, hv, rfl⟩ := fill_eq_ok_iff.1 ha
  obtain ⟨q, hq, w, hw, rfl⟩ := fill_eq_ok_iff.1 hb
  obtain rfl : p = q := by
    rw [find?, htag] at hq
    exact Option.some.inj (hp.symm.trans hq)
  exact fill_eq_ok_iff.2
    ⟨p, hq, w, hw, (h.replaces p (List.mem_of_find?_eq_some hp) v w s).symm⟩

/-- Two elements with different tags may come in any order. -/
theorem fill_of_ne (htag : e'.tag ≠ e.tag) (ha : fill context slots s e = .ok a)
    (hb : fill context slots a e' = .ok b) :
    ∃ c, fill context slots s e' = .ok c ∧ fill context slots c e = .ok b := by
  obtain ⟨p, hp, v, hv, rfl⟩ := fill_eq_ok_iff.1 ha
  obtain ⟨q, hq, w, hw, rfl⟩ := fill_eq_ok_iff.1 hb
  have hne : p ≠ q := by
    rintro rfl
    have hpe : p.tag = e.tag := by simpa using List.find?_some hp
    have hpe' : p.tag = e'.tag := by simpa using List.find?_some hq
    exact htag (hpe'.symm.trans hpe)
  have hcomm : Commutes p q :=
    h.commutes.forall (List.mem_of_find?_eq_some hp) (List.mem_of_find?_eq_some hq) hne
  exact ⟨q.put w s, fill_eq_ok_iff.2 ⟨q, hq, w, hw, rfl⟩,
    fill_eq_ok_iff.2 ⟨p, hp, v, hv, (hcomm v w s).symm⟩⟩

end Independent

/-! ## Elements that fill slots one after the other -/

/-- The elements behind which none with the same tag comes. -/
def latest : List Element → List Element
  | [] => []
  | e :: es => if es.any (·.tag = e.tag) then latest es else e :: latest es

/-- The elements that count stand in the order in which they came. -/
theorem latest_sublist (es : List Element) : (latest es).Sublist es := by
  induction es with
  | nil => exact .slnil
  | cons e es ih =>
    rw [latest]
    split
    · exact ih.cons e
    · exact ih.cons_cons e

/-- Elements are taken exactly if each of them fits a slot, whatever the others do. -/
theorem exists_foldlM_fill_iff {es : List Element} :
    (∃ s', es.foldlM (fill context slots) s = .ok s') ↔ ∀ e ∈ es, Admits slots e := by
  induction es generalizing s with
  | nil => simp [List.foldlM_nil, pure_eq_ok_iff]
  | cons e es ih =>
    simp only [List.foldlM_cons, bind_eq_ok_iff, List.forall_mem_cons]
    rw [← @exists_fill_iff σ slots context s e, exists_comm]
    constructor
    · rintro ⟨a, s', ha, hs'⟩
      exact ⟨⟨a, ha⟩, ih.1 ⟨s', hs'⟩⟩
    · rintro ⟨⟨a, ha⟩, hes⟩
      obtain ⟨s', hs'⟩ := ih.2 hes
      exact ⟨a, s', ha, hs'⟩

namespace Independent

variable (h : Independent slots) {es es' : List Element}
include h

/-- An element makes no difference if another with the same tag follows. -/
theorem foldlM_of_followed (hfollowed : ∃ e' ∈ es, e'.tag = e.tag)
    (hread : (e :: es).foldlM (fill context slots) s = .ok s') :
    es.foldlM (fill context slots) s = .ok s' := by
  -- the element moves back until it meets the one that follows it
  induction es generalizing s with
  | nil => exact absurd hfollowed (by simp)
  | cons e' es ih =>
    simp only [List.foldlM_cons, bind_eq_ok_iff] at hread ih ⊢
    obtain ⟨a, ha, b, hb, hread⟩ := hread
    by_cases htag : e'.tag = e.tag
    · exact ⟨b, h.fill_of_same htag ha hb, hread⟩
    · obtain ⟨c, hc, hcb⟩ := h.fill_of_ne htag ha hb
      exact ⟨c, hc, ih (by simpa [htag] using hfollowed) ⟨b, hcb, hread⟩⟩

/-- Those that a later one took the place of make no difference. -/
theorem foldlM_latest (hread : es.foldlM (fill context slots) s = .ok s') :
    (latest es).foldlM (fill context slots) s = .ok s' := by
  induction es generalizing s with
  | nil => exact hread
  | cons e es ih =>
    rw [latest]
    split
    · next hfollowed => exact ih (h.foldlM_of_followed (by simpa using hfollowed) hread)
    · rw [List.foldlM_cons, bind_eq_ok_iff] at hread ⊢
      obtain ⟨a, ha, hread⟩ := hread
      exact ⟨a, ha, ih hread⟩

/-- Of elements that can all be read, only the last ones of their tags count. -/
theorem foldlM_latest_iff :
    es.foldlM (fill context slots) s = .ok s' ↔
      (∀ e ∈ es, Admits slots e) ∧ (latest es).foldlM (fill context slots) s = .ok s' := by
  constructor
  · intro hread
    exact ⟨exists_foldlM_fill_iff.1 ⟨s', hread⟩, h.foldlM_latest hread⟩
  · rintro ⟨hadmits, hlatest⟩
    obtain ⟨t, ht⟩ : ∃ t, es.foldlM (fill context slots) s = .ok t :=
      exists_foldlM_fill_iff.2 hadmits
    rw [ht, ← h.foldlM_latest ht, hlatest]

/-- If all tags differ, the elements fill different slots, and it does not matter which slot is
filled first. -/
theorem foldlM_of_perm (hperm : es.Perm es') (hnodup : (es.map (·.tag)).Nodup)
    (hread : es.foldlM (fill context slots) s = .ok s') :
    es'.foldlM (fill context slots) s = .ok s' := by
  induction hperm generalizing s with
  | nil => exact hread
  | cons e _ ih =>
    rw [List.foldlM_cons, bind_eq_ok_iff] at hread ⊢
    obtain ⟨a, ha, hread⟩ := hread
    exact ⟨a, ha, ih (List.nodup_cons.1 hnodup).2 hread⟩
  | swap e' e es =>
    simp only [List.foldlM_cons, bind_eq_ok_iff] at hread ⊢
    obtain ⟨a, ha, b, hb, hread⟩ := hread
    simp only [List.map_cons, List.nodup_cons, List.mem_cons, not_or] at hnodup
    obtain ⟨c, hc, hcb⟩ := h.fill_of_ne (Ne.symm hnodup.1.1) ha hb
    exact ⟨c, hc, b, hcb, hread⟩
  | trans hfirst _ ih ih' =>
    exact ih' ((hfirst.map _).nodup_iff.1 hnodup) (ih hnodup hread)

/-- The order of elements is of no account if their tags differ. -/
theorem foldlM_perm_iff (hperm : es.Perm es') (hnodup : (es.map (·.tag)).Nodup) :
    es.foldlM (fill context slots) s = .ok s' ↔ es'.foldlM (fill context slots) s = .ok s' :=
  ⟨h.foldlM_of_perm hperm hnodup,
    h.foldlM_of_perm hperm.symm ((hperm.map _).nodup_iff.1 hnodup)⟩

end Independent
end Slot

/-! ## Layouts -/

/-- An element with some members that are told apart by their places and others that are told apart
by their tags. -/
structure Layout (σ ρ : Type) where
  name : String
  tag : Tag
  leading : Nat
  slots : List (Slot σ)
  decode : Element → Except ProtocolError ρ
  /-- What the leading members are read as. -/
  Begins : List Element → σ → Prop
  /-- What is left to check when all members have been read. -/
  Ends : σ → ρ → Prop
  independent : Slot.Independent slots
  decode_eq_ok_iff : ∀ {e : Element} {v : ρ}, decode e = .ok v ↔
    ∃ head rest s s', e.Holds tag (head ++ rest) ∧ head.length = leading ∧
      rest.length ≤ slots.length ∧ Begins head s ∧
      rest.foldlM (Slot.fill name slots) s = .ok s' ∧ Ends s' v

namespace Layout

variable {σ ρ : Type} (l : Layout σ ρ)

/-- A layout is read by its leading members and then by what fills its slots. -/
theorem decode_eq_ok_iff_of_holds {e : Element} {head rest : List Element} {v : ρ}
    (hlen : head.length = l.leading) (he : e.Holds l.tag (head ++ rest)) :
    l.decode e = .ok v ↔ rest.length ≤ l.slots.length ∧
      ∃ s s', l.Begins head s ∧ rest.foldlM (Slot.fill l.name l.slots) s = .ok s' ∧
        l.Ends s' v := by
  rw [l.decode_eq_ok_iff]
  constructor
  · rintro ⟨head', rest', s, s', he', hlen', hmax, hbegins, hread, hends⟩
    have hsame : head' ++ rest' = head ++ rest := Except.ok.inj (he'.2.symm.trans he.2)
    obtain ⟨rfl, rfl⟩ := List.append_inj hsame (hlen'.trans hlen.symm)
    exact ⟨hmax, s, s', hbegins, hread, hends⟩
  · rintro ⟨hmax, s, s', hbegins, hread, hends⟩
    exact ⟨head, rest, s, s', he, hlen, hmax, hbegins, hread, hends⟩

/-- Of the members with one tag the last one counts, and the others only have to be readable. -/
theorem decode_latest_iff {e e' : Element} {head rest : List Element}
    (hlen : head.length = l.leading) (he : e.Holds l.tag (head ++ rest))
    (he' : e'.Holds l.tag (head ++ Slot.latest rest)) (v : ρ) :
    l.decode e = .ok v ↔
      rest.length ≤ l.slots.length ∧ (∀ x ∈ rest, Slot.Admits l.slots x) ∧ l.decode e' = .ok v := by
  have hshorter := (Slot.latest_sublist rest).length_le
  rw [l.decode_eq_ok_iff_of_holds hlen he, l.decode_eq_ok_iff_of_holds hlen he']
  constructor
  · rintro ⟨hmax, s, s', hbegins, hread, hends⟩
    obtain ⟨hadmits, hlatest⟩ := l.independent.foldlM_latest_iff.1 hread
    exact ⟨hmax, hadmits, hshorter.trans hmax, s, s', hbegins, hlatest, hends⟩
  · rintro ⟨hmax, hadmits, -, s, s', hbegins, hlatest, hends⟩
    exact ⟨hmax, s, s', hbegins, l.independent.foldlM_latest_iff.2 ⟨hadmits, hlatest⟩, hends⟩

/-- The order of members is of no account if their tags differ. -/
theorem decode_perm_iff {e e' : Element} {head rest rest' : List Element}
    (hlen : head.length = l.leading) (he : e.Holds l.tag (head ++ rest))
    (he' : e'.Holds l.tag (head ++ rest')) (hperm : rest.Perm rest')
    (hnodup : (rest.map (·.tag)).Nodup) (v : ρ) :
    l.decode e = .ok v ↔ l.decode e' = .ok v := by
  rw [l.decode_eq_ok_iff_of_holds hlen he, l.decode_eq_ok_iff_of_holds hlen he', hperm.length_eq]
  simp only [l.independent.foldlM_perm_iff hperm hnodup]

end Layout

/-! ## Responses -/

/-- A response with a trailer of optional members, each of which has a slot. -/
def Response.Trailer.layout {ρ : Type} (x : Trailer ρ) (name : String) (tag : Tag)
    (slots : List (Slot ρ)) (independent : Slot.Independent slots)
    (hread : x.read = Slot.fill name slots) (hcount : slots.length = x.count)
    (decode : Element → Except ProtocolError ρ)
    (hdecode : ∀ {e r}, decode e = .ok r ↔ x.Reads tag e r) : Layout ρ ρ where
  name := name
  tag := tag
  leading := 3
  slots := slots
  decode := decode
  Begins head r := ∃ code matchedDn diagnostic response, head = [code, matchedDn, diagnostic] ∧
    response.ReadsHead code matchedDn diagnostic ∧ r = x.start response
  Ends r v := r = v
  independent := independent
  decode_eq_ok_iff := by
    intro e v
    rw [hdecode, ← hread, hcount]
    constructor
    · rintro ⟨response, code, matchedDn, diagnostic, rest, he, hmax, hhead, hrest⟩
      exact ⟨[code, matchedDn, diagnostic], rest, _, v, he, rfl, hmax,
        ⟨code, matchedDn, diagnostic, response, rfl, hhead, rfl⟩, hrest, rfl⟩
    · rintro ⟨_, rest, _, _, he, -, hmax, ⟨code, matchedDn, diagnostic, response, rfl, hhead, rfl⟩,
        hrest, rfl⟩
      exact ⟨response, code, matchedDn, diagnostic, rest, he, hmax, hhead, hrest⟩

namespace BindResponse

/-- The referrals of the server, and the credentials that it proves itself with. -/
def slots : List (Slot BindResponse) :=
  [⟨Response.referralsTag, Response.decodeReferrals,
    fun urls r => { r with response.referrals := urls }⟩,
   ⟨saslCredentialsTag, fun e => .ok e.content,
    fun bytes r => { r with saslCredentials := some bytes }⟩]

theorem independent_slots : Slot.Independent slots := by
  constructor <;> simp [slots, Slot.Commutes]

/-- The reader of a bind response fills slots. -/
theorem decodeOptional_eq_fill : decodeOptional = Slot.fill "bind response" slots := by
  funext r e
  simp only [slots, Slot.fill_cons, Slot.fill_nil]
  rfl

def layout : Layout BindResponse BindResponse :=
  trailer.layout "bind response" tag slots independent_slots decodeOptional_eq_fill rfl decode
    decode_eq_ok_iff

end BindResponse

namespace ExtendedResponse

/-- Referrals, the name of the response, and its value. -/
def slots : List (Slot ExtendedResponse) :=
  [⟨Response.referralsTag, Response.decodeReferrals,
    fun urls r => { r with response.referrals := urls }⟩,
   ⟨oidTag, fun e => e.asStringTagged oidTag, fun oid r => { r with oid := some oid }⟩,
   ⟨valueTag, fun e => .ok e.content, fun bytes r => { r with value := some bytes }⟩]

theorem independent_slots : Slot.Independent slots := by
  constructor <;> simp [slots, Slot.Commutes]

theorem decodeOptional_eq_fill : decodeOptional = Slot.fill "extended response" slots := by
  funext r e
  simp only [slots, Slot.fill_cons, Slot.fill_nil]
  rfl

def layout : Layout ExtendedResponse ExtendedResponse :=
  trailer.layout "extended response" tag slots independent_slots decodeOptional_eq_fill rfl decode
    decode_eq_ok_iff

end ExtendedResponse

namespace IntermediateResponse

/-- The name and the value of an intermediate response, which has no head. -/
def slots : List (Slot IntermediateResponse) :=
  [⟨oidTag, fun e => e.asStringTagged oidTag, fun oid r => { r with oid := some oid }⟩,
   ⟨valueTag, fun e => .ok e.content, fun bytes r => { r with value := some bytes }⟩]

theorem independent_slots : Slot.Independent slots := by
  constructor <;> simp [slots, Slot.Commutes]

theorem decodeOptional_eq_fill : decodeOptional = Slot.fill "intermediate response" slots := by
  funext r e
  simp only [slots, Slot.fill_cons, Slot.fill_nil]
  rfl

def layout : Layout IntermediateResponse IntermediateResponse where
  name := "intermediate response"
  tag := tag
  leading := 0
  slots := slots
  decode := decode
  Begins _ r := r = ⟨none, none⟩
  Ends r v := r = v
  independent := independent_slots
  decode_eq_ok_iff := by
    intro e v
    rw [decode_eq_ok_iff, ← decodeOptional_eq_fill]
    constructor
    · rintro ⟨es, he, hmax, hread⟩
      exact ⟨[], es, _, v, he, rfl, hmax, rfl, hread, rfl⟩
    · rintro ⟨head, rest, _, _, he, hnil, hmax, rfl, hread, rfl⟩
      obtain rfl := List.eq_nil_of_length_eq_zero hnil
      exact ⟨rest, he, hmax, hread⟩

end IntermediateResponse

/-! ## Sort keys -/

namespace SortKey

/-- The rule of a sort key and its direction. -/
def slots : List (Slot SortKey) :=
  [⟨ruleTag, fun e => e.asStringTagged ruleTag, fun rule k => { k with rule := some rule }⟩,
   ⟨reverseTag, fun e => e.asBooleanTagged reverseTag, fun reverse k => { k with reverse }⟩]

theorem independent_slots : Slot.Independent slots := by
  constructor <;> simp [slots, Slot.Commutes]

theorem decodeOptional_eq_fill : decodeOptional = Slot.fill "sort key" slots := by
  funext k e
  simp only [slots, Slot.fill_cons, Slot.fill_nil]
  rfl

def layout : Layout SortKey SortKey where
  name := "sort key"
  tag := .sequence
  leading := 1
  slots := slots
  decode := decode
  Begins head k := ∃ attr text, head = [attr] ∧ attr.asString = .ok text ∧ k = ⟨text, none, false⟩
  Ends k v := k = v
  independent := independent_slots
  decode_eq_ok_iff := by
    intro e v
    rw [decode_eq_ok_iff, ← decodeOptional_eq_fill]
    constructor
    · rintro ⟨attr, rest, text, he, hmax, hattr, hread⟩
      exact ⟨[attr], rest, _, v, he, rfl, hmax, ⟨attr, text, rfl, hattr, rfl⟩, hread, rfl⟩
    · rintro ⟨_, rest, _, _, he, -, hmax, ⟨attr, text, rfl, hattr, rfl⟩, hread, rfl⟩
      exact ⟨attr, rest, text, he, hmax, hattr, hread⟩

end SortKey

/-! ## Extensible matches -/

namespace Filter.ExtensibleParts

/-- A rule, an attribute, the value to match, and whether names count as attributes. -/
def slots : List (Slot ExtensibleParts) :=
  [⟨ruleTag, fun e => e.asStringTagged ruleTag, fun rule p => { p with rule := some rule }⟩,
   ⟨attrTag, fun e => e.asStringTagged attrTag, fun attr p => { p with attr := some attr }⟩,
   ⟨valueTag, fun e => .ok e.content, fun bytes p => { p with value := some bytes }⟩,
   ⟨dnTag, fun e => e.asBooleanTagged dnTag, fun dn p => { p with dn }⟩]

theorem independent_slots : Slot.Independent slots := by
  constructor <;> simp [slots, Slot.Commutes]

theorem decodeExtensiblePart_eq_fill :
    decodeExtensiblePart = Slot.fill "extensible match filter" slots := by
  funext p e
  simp only [slots, Slot.fill_cons, Slot.fill_nil]
  rfl

/-- A match needs a value, and an attribute or a rule to match it by. -/
def layout : Layout ExtensibleParts FilterItem where
  name := "extensible match filter"
  tag := extensibleTag
  leading := 0
  slots := slots
  decode := decodeExtensible
  Begins _ p := p = ⟨none, none, none, false⟩
  Ends p i := ∃ value, p.value = some value ∧ i = .extensible p.rule p.attr value p.dn ∧
    i.Expressible
  independent := independent_slots
  decode_eq_ok_iff := by
    intro e i
    rw [decodeExtensible_eq_ok_iff, ← decodeExtensiblePart_eq_fill]
    constructor
    · rintro ⟨rule, attr, value, dn, rfl, hex, es, he, hmax, hread⟩
      exact ⟨[], es, _, _, he, rfl, hmax, rfl, hread, value, rfl, rfl, hex⟩
    · rintro ⟨head, rest, _, ⟨rule, attr, _, dn⟩, he, hnil, hmax, rfl, hread, value, rfl, rfl, hex⟩
      obtain rfl := List.eq_nil_of_length_eq_zero hnil
      exact ⟨rule, attr, value, dn, rfl, hex, rest, he, hmax, hread⟩

end Filter.ExtensibleParts

/-! ## All of them -/

/-- The elements with members that are told apart by their tags. -/
inductive TaggedFormat where
  | bindResponse
  | extendedResponse
  | intermediateResponse
  | sortKey
  | extensibleMatch
  deriving DecidableEq, Repr

namespace TaggedFormat

/-- What is known while the members are read. -/
def State : TaggedFormat → Type
  | bindResponse => BindResponse
  | extendedResponse => ExtendedResponse
  | intermediateResponse => IntermediateResponse
  | sortKey => SortKey
  | extensibleMatch => Filter.ExtensibleParts

/-- What an element is read as. -/
def Value : TaggedFormat → Type
  | bindResponse => BindResponse
  | extendedResponse => ExtendedResponse
  | intermediateResponse => IntermediateResponse
  | sortKey => SortKey
  | extensibleMatch => FilterItem

def layout : (f : TaggedFormat) → Layout f.State f.Value
  | bindResponse => BindResponse.layout
  | extendedResponse => ExtendedResponse.layout
  | intermediateResponse => IntermediateResponse.layout
  | sortKey => SortKey.layout
  | extensibleMatch => Filter.ExtensibleParts.layout

/-- Whichever element it is, it holds at most as many optional members as there are tags, each of
which has to be readable. The last one of each tag counts, and if all tags differ, the order makes
no difference. -/
theorem told_apart (f : TaggedFormat) {e : Element} {head rest : List Element}
    (hlen : head.length = f.layout.leading) (he : e.Holds f.layout.tag (head ++ rest)) :
    (∀ e' v, e'.Holds f.layout.tag (head ++ Slot.latest rest) →
      (f.layout.decode e = .ok v ↔ rest.length ≤ f.layout.slots.length ∧
        (∀ x ∈ rest, Slot.Admits f.layout.slots x) ∧ f.layout.decode e' = .ok v)) ∧
    ((rest.map (·.tag)).Nodup → ∀ e' rest' v, e'.Holds f.layout.tag (head ++ rest') →
      rest.Perm rest' → (f.layout.decode e = .ok v ↔ f.layout.decode e' = .ok v)) :=
  ⟨fun _ v he' => f.layout.decode_latest_iff hlen he he' v,
    fun hnodup _ _ v he' hperm => f.layout.decode_perm_iff hlen he he' hperm hnodup v⟩

/-- Of two credentials the last ones are taken. -/
theorem told_apart_of_two_credentials :
    let head : List Element := [.enumerated 0, .string "", .string ""]
    let credentials (b : UInt8) : Element := ⟨BindResponse.saslCredentialsTag, [b]⟩
    let e : Element := .constructed BindResponse.tag (head ++ [credentials 1, credentials 2])
    head.length = 3 ∧ e.Holds BindResponse.tag (head ++ [credentials 1, credentials 2]) ∧
      BindResponse.decode e = .ok ⟨⟨⟨0⟩, none, none, []⟩, some [2]⟩ := by
  intro head credentials e
  have he : e.Holds BindResponse.tag (head ++ [credentials 1, credentials 2]) :=
    ⟨rfl, by decide +kernel⟩
  have hlast : (Element.constructed BindResponse.tag (head ++ [credentials 2])).Holds
      BindResponse.tag (head ++ Slot.latest [credentials 1, credentials 2]) :=
    ⟨rfl, by decide +kernel⟩
  have hread (b : UInt8) : Slot.Admits BindResponse.slots (credentials b) :=
    ⟨_, rfl, [b], rfl⟩
  have hkept : BindResponse.decode (.constructed BindResponse.tag (head ++ [credentials 2])) =
      .ok ⟨⟨⟨0⟩, none, none, []⟩, some [2]⟩ := by
    decide +kernel
  refine ⟨rfl, he, ((told_apart .bindResponse rfl he).1 _ _ hlast).2 ⟨by decide, ?_, hkept⟩⟩
  simpa using ⟨hread 1, hread 2⟩

end TaggedFormat

/-- A tag that occurs twice is not refused, and which value is kept depends on the order. -/
theorem repeated_optional_kept :
    let head : List Element := [.enumerated 0, .string "", .string ""]
    let success : Response := ⟨⟨0⟩, none, none, []⟩
    let credentials (b : UInt8) : Element := ⟨BindResponse.saslCredentialsTag, [b]⟩
    BindResponse.decode (.constructed BindResponse.tag (head ++ [credentials 1, credentials 2])) =
        .ok ⟨success, some [2]⟩ ∧
      BindResponse.decode (.constructed BindResponse.tag (head ++ [credentials 2, credentials 1])) =
        .ok ⟨success, some [1]⟩ ∧
      ExtendedResponse.decode (.constructed ExtendedResponse.tag
        (head ++ [⟨ExtendedResponse.valueTag, [1]⟩, ⟨ExtendedResponse.valueTag, [2]⟩])) =
        .ok ⟨success, none, some [2]⟩ ∧
      IntermediateResponse.decode (.constructed IntermediateResponse.tag
        [⟨IntermediateResponse.valueTag, [1]⟩, ⟨IntermediateResponse.valueTag, [2]⟩]) =
        .ok ⟨none, some [2]⟩ ∧
      SortKey.decode (.sequence
        [.string "cn", .stringTagged SortKey.ruleTag "1", .stringTagged SortKey.ruleTag "2"]) =
        .ok ⟨"cn", some "2", false⟩ ∧
      Filter.decodeExtensible (.constructed Filter.extensibleTag
        [.stringTagged Filter.attrTag "cn", ⟨Filter.valueTag, [1]⟩, ⟨Filter.valueTag, [2]⟩]) =
        .ok (.extensible none (some "cn") [2] false) := by
  intro head success credentials
  refine ⟨?_, ?_, ?_, ?_, ?_, ?_⟩ <;> decide +kernel

end Ldap
