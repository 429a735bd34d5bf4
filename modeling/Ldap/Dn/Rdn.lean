import Ldap.Dn.Scan
import Ldap.Dn.Schema
import Ldap.Text.Quoted

/-!
# Relative distinguished names

A relative name is one or more attribute values that name an entry among its siblings. Two of them
are the same if their normalized texts are; they are ordered by their normalized components.
-/

namespace Ldap

/-- An attribute value that takes part in a name. -/
abbrev Component := Scan.Part

/-- The components of a relative name, the text it was read from or is written as, and the schema
it is normalized with. -/
structure Rdn where
  components : List Component
  text : String
  schema : Option Schema
  deriving DecidableEq, Repr

namespace Rdn

/-! ## Making relative names -/

/-- Components joined by plus signs. -/
def render (escaping : Value.Escaping) (cs : List Component) : String :=
  "+".intercalate <| cs.map fun c =>
    c.name ++ "=" ++ String.ofList (Value.escape escaping c.value)

/-- The relative name of some components, without a schema. -/
def ofComponents (cs : List Component) : Rdn :=
  ⟨cs, render .full cs, none⟩

/-- The relative name of a single component. -/
def single (name : String) (value : List UInt8) : Rdn :=
  ofComponents [⟨name, value⟩]

/-- The relative name of at least one component. -/
def ofComponents? (cs : List Component) : Except NameError Rdn :=
  if cs.isEmpty then .error .noComponents else .ok (ofComponents cs)

/-- A relative name as it was read. -/
def ofScanned (schema : Option Schema) (r : Scan.Relative) : Rdn :=
  ⟨r.parts, r.text, schema⟩

/-- Reads a relative name. -/
def parse (text : String) (schema : Option Schema) : Except NameError Rdn :=
  (Scan.relativeName text).map (ofScanned schema)

def withSchema (r : Rdn) (schema : Schema) : Rdn :=
  { r with schema := some schema }

/-! ## The normal form -/

/-- The name that an attribute name stands for under a schema, if there is one. -/
def canonicalName (schema : Option Schema) (name : String) : String :=
  match schema with
  | some s => s.canonicalName name
  | none => plainName name

/-- Whether the values of an attribute are compared case by case. -/
def isCaseExact (schema : Option Schema) (name : String) : Bool :=
  schema.any (·.isCaseExact name)

/-- The value bytes of an attribute in the form in which they are compared. -/
def normalValue (schema : Option Schema) (canonical : String) (value : List UInt8) : String :=
  String.ofList (Value.normalize (isCaseExact schema canonical) value)

/-- A component as the name it stands for and its value as it is compared. -/
def normalComponent (schema : Option Schema) (c : Component) : String × String :=
  let name := canonicalName schema c.name
  (name, normalValue schema name c.value)

/-- The order of normalized components: by name, then by value. -/
def compareComponents (a b : String × String) : Ordering :=
  (compare a.1 b.1).then (compare a.2 b.2)

/-- The components in normal form, sorted. -/
def normalComponents (r : Rdn) : List (String × String) :=
  (r.components.map (normalComponent r.schema)).mergeSort fun a b => (compareComponents a b).isLE

/-- The normalized text. -/
def normalized (r : Rdn) : String :=
  "+".intercalate (r.normalComponents.map fun c => c.1 ++ "=" ++ c.2)

/-- The text with as few escapes as can be. -/
def minimal (r : Rdn) : String :=
  render .minimal r.components

/-- The order of lists of components: at the first difference, and a beginning comes first. -/
def compareLists : List (String × String) → List (String × String) → Ordering
  | [], [] => .eq
  | [], _ :: _ => .lt
  | _ :: _, [] => .gt
  | a :: as, b :: bs => (compareComponents a b).then (compareLists as bs)

/-- Relative names are the same if their normalized texts are. -/
instance : BEq Rdn := ⟨fun a b => a.normalized == b.normalized⟩

instance : Ord Rdn := ⟨fun a b => compareLists a.normalComponents b.normalComponents⟩

/-! ## Questions -/

def isMultiValued (r : Rdn) : Bool :=
  1 < r.components.length

/-- Whether an attribute takes part in the name. -/
def hasAttribute (r : Rdn) (name : String) : Bool :=
  let wanted := canonicalName r.schema name
  r.components.any fun c => canonicalName r.schema c.name == wanted

/-- Whether an attribute takes part in the name with a value. -/
def hasAttributeValue (r : Rdn) (name : String) (value : List UInt8) : Bool :=
  r.normalComponents.contains (normalComponent r.schema ⟨name, value⟩)

/-- A relative name for a reader's eye. -/
def describe (r : Rdn) : String :=
  "Rdn(" ++ Text.Quoted.encode r.text ++ ")"

end Rdn
end Ldap
