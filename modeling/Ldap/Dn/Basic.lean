import Ldap.Dn.Rdn

/-!
# Distinguished names

The place of an entry in the tree: its relative names from the entry itself up to the root. The
null name has none of them and names the root.
-/

namespace Ldap

/-- A distinguished name: the text it was read from or is written as, and its relative names, the
entry's own first. -/
structure Dn where
  text : String
  rdns : List Rdn
  deriving Repr

namespace Dn

/-! ## Making names -/

/-- The name of the root. -/
def null : Dn := ⟨"", []⟩

/-- Reads a name; its relative names keep the schema. -/
def parse (text : String) (schema : Option Schema) : Except NameError Dn :=
  (Scan.distinguishedName text).map fun rs => ⟨text, rs.map (Rdn.ofScanned schema)⟩

/-- Whether a text is a name. -/
def isValid (text : String) : Bool :=
  (Scan.distinguishedName text).isOk

/-- The name made of relative names, joined by commas. -/
def ofRdns (rdns : List Rdn) : Dn :=
  ⟨",".intercalate (rdns.map (·.text)), rdns⟩

/-- The name of an entry right below this one. -/
def child (d : Dn) (rdn : Rdn) : Dn :=
  ⟨if d.rdns.isEmpty then rdn.text else rdn.text ++ "," ++ d.text, rdn :: d.rdns⟩

/-- The name one level up. The names of the first level have none. -/
def parent? (d : Dn) : Option Dn :=
  match d.rdns with
  | _ :: rdn :: rdns => some (ofRdns (rdn :: rdns))
  | _ => none

/-- The schema of the name, which its relative names share. -/
def schema (d : Dn) : Option Schema :=
  d.rdns.head?.bind (·.schema)

/-! ## Texts -/

/-- The normalized text. -/
def normalized (d : Dn) : String :=
  ",".intercalate (d.rdns.map Rdn.normalized)

/-- The text with as few escapes as can be. -/
def minimal (d : Dn) : String :=
  ",".intercalate (d.rdns.map Rdn.minimal)

/-- The normalized text of the name that a text spells. -/
def normalize (text : String) : Except NameError String :=
  (parse text none).map normalized

/-- A name for a reader's eye. -/
def describe (d : Dn) : String :=
  "Dn(" ++ Text.Quoted.encode d.text ++ ")"

/-- Names are the same if their normalized texts are. -/
instance : BEq Dn := ⟨fun a b => a.normalized == b.normalized⟩

/-- The state of a hasher after a name, of which it takes in the normalized text. -/
def hashInto {σ : Type} (write : σ → String → σ) (state : σ) (d : Dn) : σ :=
  write state d.normalized

end Dn
end Ldap
