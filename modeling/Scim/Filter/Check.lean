import Scim.Attribute.Comparable
import Scim.Filter.Scope
import Scim.Issues.Basic

/-!
  # Checking filters against a schema

  An operator may not apply to the type of an attribute, and an operand may not be of a type that
  values of the attribute could have.  `Filter.check` reports both, once for each comparison and in
  the order of the text.  Attributes that the schema does not know are not reported: comparing them
  is no mistake, it only never holds.
-/

namespace Scim

/-- Whether values of a type can be compared with a literal. -/
def Literal.fits (literal : Literal) (type : AttributeType) : Bool :=
  match literal, type with
  | .null, _ => true
  | .boolean _, .boolean => true
  | .integer _, .integer => true
  | .integer _, .decimal => true
  | .decimal .., .decimal => true
  | .string s, .dateTime => (DateTime.parse? s).isSome
  | .string _, .string => true
  | .string _, .reference => true
  | .string _, .binary => true
  | _, _ => false

/-- What is wrong with comparing an attribute: the operator does not apply to its type, or the
    operand does not fit. -/
def Comparison.error? (c : Comparison) (a : Attribute) : Option Error :=
  match c with
  | .unary _ => none
  | .binary op operand =>
    if !op.supportsAttribute a.type then some (.incompatibleOperand op.key a.type.text)
    else if !operand.fits a.type then some (.incompatibleOperand op.key operand.typeName)
    else none

/-- What is wrong with a comparison. -/
def AttributeFilter.error? (f : AttributeFilter) (scope : Scope) : Option Error :=
  (scope.target? f).bind fun (_, a) => f.comparison.error? a

namespace Filter

/-- What is wrong with the comparisons of a filter. -/
def errorsIn : Filter → Scope → List Error
  | .and left right, scope | .or left right, scope => left.errorsIn scope ++ right.errorsIn scope
  | .not inner, scope | .group inner, scope => inner.errorsIn scope
  | .leaf f, scope => (f.error? scope).toList
  | .complex attr inner, scope =>
    match scope.attribute? attr with
    | some a => inner.errorsIn (.element a.elementSubs)
    | none => []

/-- Checks a filter for resources of a schema. -/
def check (f : Filter) (schema : Schema) : Issues :=
  .ofErrors (f.errorsIn (.resource schema))

end Filter

end Scim
