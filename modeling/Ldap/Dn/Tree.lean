import Ldap.Dn.Basic

/-!
# The tree of names

The order of names, in which every name stands before all names below it, and the tests for being
above, below, or within a search scope.
-/

namespace Ldap.Dn

/-- Compares relative names from the root on; a shorter name comes first. -/
def compareFromRoot : List Rdn → List Rdn → Ordering
  | [], [] => .eq
  | [], _ :: _ => .lt
  | _ :: _, [] => .gt
  | a :: as, b :: bs => (compare a b).then (compareFromRoot as bs)

instance : Ord Dn := ⟨fun a b => compareFromRoot a.rdns.reverse b.rdns.reverse⟩

/-- Whether a name is above another one, or the same one if `orSame`. -/
def isAncestorOf (d other : Dn) (orSame : Bool) : Bool :=
  match compare d.rdns.length other.rdns.length with
  | .gt => false
  | .eq => orSame && d == other
  | .lt => (d.rdns.reverse.zip other.rdns.reverse).all fun p => p.1 == p.2

/-- Whether a name is below another one, or the same one if `orSame`. -/
def isDescendantOf (d other : Dn) (orSame : Bool) : Bool :=
  other.isAncestorOf d orSame

/-- Whether a search from `base` in a scope reaches a name. -/
def matchesScope (d base : Dn) (scope : SearchScope) : Except NameError Bool :=
  if scope = .base then .ok (d == base)
  else if scope = .one then
    .ok (d.parent?.any (· == base) || (base.rdns.isEmpty && d.rdns.length == 1))
  else if scope = .sub then .ok (d.isDescendantOf base true)
  else if scope = .subordinates then .ok (d.isDescendantOf base false)
  else .error (.unmatchableScope scope)

/-- Sorts names; equal ones keep their order. -/
def sort (ds : List Dn) : List Dn :=
  ds.mergeSort fun a b => (compare a b).isLE

end Ldap.Dn
