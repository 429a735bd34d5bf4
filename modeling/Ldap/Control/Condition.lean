import Ldap.Control.Basic
import Ldap.Filter.Wire

/-!
# Controls that hold filters

An assertion lets an operation go on only if the entry satisfies a filter. Matched values leaves
those values out of a search result that satisfy none of its filters.
-/

namespace Ldap

open Ber (Element)

/-- Lets an operation go on only if the entry satisfies a filter. -/
structure Assertion where
  filter : Filter
  critical : Bool
  deriving DecidableEq, Repr

namespace Assertion

def oid : String := "1.3.6.1.1.12"

instance : ControlType Assertion where
  oid := oid
  name := "Assertion"
  critical := true
  ofControl c := do return ⟨← Filter.decode (← c.valueElement), c.critical⟩
  toControl a := .withElement oid a.critical a.filter.encode

end Assertion

/-- Asks for those values only that satisfy one of the filters. -/
structure MatchedValues where
  filters : List Filter
  critical : Bool
  deriving DecidableEq, Repr

namespace MatchedValues

def oid : String := "1.2.826.0.1.3344810.2.3"

/-- Refuses filters that do not select values. -/
def checkFilters (filters : List Filter) : Except ProtocolError Unit :=
  if filters.isEmpty then .error (.broken .noValueFilters)
  else
    match filters.find? (!·.isSimpleItem) with
    | some f => .error (.broken (.notAValueFilter f))
    | none => .ok ()

/-- A control of filters that select values. -/
def ofFilters (filters : List Filter) (critical : Bool) : Except ProtocolError MatchedValues := do
  checkFilters filters
  return ⟨filters, critical⟩

instance : ControlType MatchedValues where
  oid := oid
  name := "Matched Values"
  ofControl c := do
    let filters ← (← (← c.valueElement).asSequence).mapM Filter.decode
    ofFilters filters c.critical
  toControl m := .withElement oid m.critical (.sequence (Filter.encodeAll m.filters))

end MatchedValues
end Ldap
