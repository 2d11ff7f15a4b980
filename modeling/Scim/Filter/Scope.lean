import Scim.Filter.Basic
import Scim.Record.Access
import Scim.Schema.Resolution

/-!
  # What the references of a filter speak of

  Outside of square brackets a reference is resolved by the schema of the resource.  Within
  `attr[…]` it names a sub-attribute of `attr`, and the filter is applied to each element of `attr`
  by itself.  An attribute without sub-attributes is treated there as if its elements were complex,
  with the element itself as sub-attribute `value`: `roles[value eq "admin"]`.
-/

namespace Scim

/-! ## Elements of an attribute -/

namespace Attribute

/-- The sub-attribute `value` of an attribute that has no sub-attributes. -/
def ownValue (a : Attribute) (k : SimpleKind) : SubAttribute :=
  { name := Name.value, kind := k, caseExact := a.caseExact }

/-- The sub-attributes that a filter on the elements of the attribute may refer to. -/
def elementSubs (a : Attribute) : AttributeSet SimpleKind :=
  match a.kind with
  | .complex subs => subs
  | .simple k => ⟨[a.ownValue k], by simp [AttributeOf.keys]⟩

/-- An element as a filter sees it, if it does at all. -/
def elementRecord? (a : Attribute) (element : Value) : Option Record :=
  match a.kind with
  | .complex _ => element.complex?
  | .simple _ => if element.isNull then none else some (Record.single "value" element)

end Attribute

/-! ## Scopes -/

/-- What references are resolved by. -/
inductive Scope where
  /-- The schema of a resource. -/
  | resource (schema : Schema)
  /-- The sub-attributes of an element. -/
  | element (subs : AttributeSet SimpleKind)

namespace Scope

/-- The attribute that a reference names. -/
def attribute? (scope : Scope) (r : Reference) : Option Attribute :=
  match scope with
  | .resource schema => schema.attributeOf? r
  | .element subs =>
    if r.isSub || r.schema?.isSome then none else (subs.find? r.attr).map SubAttribute.lift

/-- The value that a reference names in a resource or element. -/
def value? (scope : Scope) (data : Record) (r : Reference) : Option Value :=
  match scope with
  | .resource schema => do
    let q ← schema.resolve? r
    Record.getAt? data (.ofQualified q) .null
  | .element _ => Record.get? data r.attr.text

/-- The attribute that a comparison speaks of, and its reference.  Where an operand is compared with
    a complex attribute, it is compared with the sub-attribute `value`. -/
def target? (scope : Scope) (f : AttributeFilter) : Option (Reference × Attribute) := do
  let a ← scope.attribute? f.attr
  if a.isComplex && !f.comparison.isUnary then
    let r := f.attr.child .value
    return (r, ← scope.attribute? r)
  else return (f.attr, a)

end Scope

end Scim
