import Scim.Attribute.Comparable
import Scim.Filter.Scope

/-!
  # Applying filters

  A resource matches a filter when the tree of comparisons says so (`Filter.evaluate`).

    * A comparison with an attribute that the schema does not know does not hold.
    * A list is compared element by element, and one that holds is enough; a missing value and the
      empty list are compared once, as null.
    * `attr[…]` holds if one of the elements of `attr` matches by itself (`Filter.holdsForAny`).
-/

namespace Scim

/-- The values that a comparison is tried on. -/
def Comparison.candidates : Option Value → List Value
  | none | some (.list []) => [.null]
  | some (.list items) => items
  | some value => [value]

/-- Whether a comparison holds for a value of an attribute. -/
def Comparison.holds (c : Comparison) (a : Attribute) (value : Value) : Bool :=
  match c with
  | .unary op => op.evaluate value
  | .binary op operand => op.evaluate (a.comparable value) (a.comparable operand.toValue)

/-- Whether a comparison holds for one of the values of its attribute. -/
def AttributeFilter.holds (f : AttributeFilter) (scope : Scope) (data : Record) : Bool :=
  match scope.target? f with
  | none => false
  | some (r, a) => (Comparison.candidates (scope.value? data r)).any (f.comparison.holds a)

namespace Filter

/-- The elements of a value: its items if it is a list, else the value itself. -/
def elements : Value → List Value
  | .list items => items
  | value => [value]

/-- Whether a filter holds for a resource or an element. -/
def holds : Filter → Scope → Record → Bool
  | .and left right, scope, data => left.holds scope data && right.holds scope data
  | .or left right, scope, data => left.holds scope data || right.holds scope data
  | .not inner, scope, data => !inner.holds scope data
  | .group inner, scope, data => inner.holds scope data
  | .leaf f, scope, data => f.holds scope data
  | .complex attr inner, scope, data =>
    match scope.attribute? attr, scope.value? data attr with
    | some a, some value =>
      ((elements value).filterMap a.elementRecord?).any (inner.holds (.element a.elementSubs))
    | _, _ => false

/-- Whether a filter on the elements of an attribute holds for one of them. -/
def holdsForAny (f : Filter) (a : Attribute) (elements : List Value) : Bool :=
  (elements.filterMap a.elementRecord?).any (f.holds (.element a.elementSubs))

/-- Whether a resource of a schema matches a filter. -/
def evaluate (f : Filter) (data : Record) (schema : Schema) : Bool :=
  f.holds (.resource schema) data

end Filter

end Scim
