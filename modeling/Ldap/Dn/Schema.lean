import Ldap.Text.Lowercase

/-!
# Attribute names

A schema says which attribute names mean the same attribute, and which attributes tell apart the
letter cases of their values. It never refuses a name.
-/

namespace Ldap

/-- Names that stand for other names, latest first, and the names of attributes whose values are
compared case by case. -/
structure Schema where
  aliases : List (String × String)
  caseExact : List String
  deriving DecidableEq, Repr

/-- The name without a leading `oid.` in any letter case, in lower case. -/
def plainName (name : String) : String :=
  let cs := name.toList
  if (cs.take 4).map Char.toLower = ['o', 'i', 'd', '.'] then
    Text.asciiLower (String.ofList (cs.drop 4))
  else Text.asciiLower name

namespace Schema

def empty : Schema := ⟨[], []⟩

/-- The name that an attribute name stands for. -/
def canonicalName (s : Schema) (name : String) : String :=
  let plain := plainName name
  (s.aliases.lookup plain).getD plain

/-- Whether the values of an attribute are compared case by case. -/
def isCaseExact (s : Schema) (name : String) : Bool :=
  s.caseExact.contains (s.canonicalName name)

/-- Makes a name stand for another one, which is not looked up in turn. -/
def withAlias (s : Schema) (name canonical : String) : Schema :=
  { s with aliases := (Text.asciiLower name, Text.asciiLower canonical) :: s.aliases }

/-- Compares the values of an attribute case by case. The name is resolved with the aliases known
so far. -/
def withCaseExact (s : Schema) (name : String) : Schema :=
  { s with caseExact := s.canonicalName name :: s.caseExact }

/-- The usual long names and object identifiers of naming attributes. -/
def standardAliases : List (String × String) :=
  [("commonname", "cn"), ("2.5.4.3", "cn"), ("surname", "sn"), ("2.5.4.4", "sn"),
   ("countryname", "c"), ("2.5.4.6", "c"), ("localityname", "l"), ("2.5.4.7", "l"),
   ("stateorprovincename", "st"), ("2.5.4.8", "st"), ("streetaddress", "street"),
   ("2.5.4.9", "street"), ("organizationname", "o"), ("2.5.4.10", "o"),
   ("organizationalunitname", "ou"), ("2.5.4.11", "ou"), ("userid", "uid"),
   ("0.9.2342.19200300.100.1.1", "uid"), ("domaincomponent", "dc"),
   ("0.9.2342.19200300.100.1.25", "dc")]

/-- The schema that knows the usual names of naming attributes. -/
def standard : Schema :=
  standardAliases.foldl (fun s p => s.withAlias p.1 p.2) empty

end Schema
end Ldap
