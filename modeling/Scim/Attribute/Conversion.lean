import Scim.Attribute.Basic

/-!
  # Values on their way in and out

  Inbound data is read as what its attribute declares (`deserialize`): texts of date-times become
  date-times and integers become decimals where decimals are declared.  Outbound data is written as
  JSON can hold it (`serialize`): date-times become texts.  Both keep the declared sub-attributes of
  a complex value only, under their declared names and in their declared order, and leave values
  alone that are not of the declared kind.  An attribute's own converter is applied last.
-/

namespace Scim

namespace AttributeOf

variable {κ : Type}

/-- Applies `single` to a value, or to the items of a list of a multi-valued attribute, and then the
    attribute's own converter to the whole. -/
def convertWith (a : AttributeOf κ) (single : Value → Value) (own : Option (Value → Value))
    (value : Value) : Value :=
  let value := match value with
    | .list items => if a.multiValued then .list (items.map single) else single (.list items)
    | value => single value
  match own with
  | some f => f value
  | none => value

/-- The declared attributes of a record, converted, under their declared names. -/
def convertRecord (attrs : List (AttributeOf κ)) (convert : AttributeOf κ → Value → Value)
    (fields : Record) : Record :=
  attrs.filterMap fun a =>
    (Record.get? fields a.name.text).map fun value => (a.name.text, convert a value)

end AttributeOf

/-! ## Reading -/

/-- Reads one element as what a simple kind declares. -/
def SimpleKind.deserialize (k : SimpleKind) (value : Value) : Value :=
  match k, value with
  | .dateTime, .string s =>
    match DateTime.parse? s with
    | some t => .dateTime t
    | none => .string s
  | .decimal, .integer n => .decimal (Decimal.ofInt n.toInt)
  | _, value => value

/-- Reads a value of a sub-attribute. -/
def SubAttribute.deserialize (a : SubAttribute) (value : Value) : Value :=
  a.convertWith a.kind.deserialize a.deserializer value

/-- Reads one element as what a kind declares. -/
def Kind.deserialize (k : Kind) (value : Value) : Value :=
  match k, value with
  | .simple k, value => k.deserialize value
  | .complex subs, .complex fields =>
    .complex (AttributeOf.convertRecord subs.toList SubAttribute.deserialize fields)
  | .complex _, value => value

/-- Reads a value of an attribute. -/
def Attribute.deserialize (a : Attribute) (value : Value) : Value :=
  a.convertWith a.kind.deserialize a.deserializer value

/-! ## Writing -/

/-- Writes a date-time as its text, and leaves other values alone. -/
def Value.withoutDateTime (value : Value) : Value :=
  match value with
  | .dateTime t => .string t.render
  | value => value

/-- Writes a value of a sub-attribute. -/
def SubAttribute.serialize (a : SubAttribute) (value : Value) : Value :=
  a.convertWith Value.withoutDateTime a.serializer value

/-- Writes one element as what a kind declares. -/
def Kind.serialize (k : Kind) (value : Value) : Value :=
  match k, value with
  | .complex subs, .complex fields =>
    .complex (AttributeOf.convertRecord subs.toList SubAttribute.serialize fields)
  | _, value => value.withoutDateTime

/-- Writes a value of an attribute. -/
def Attribute.serialize (a : Attribute) (value : Value) : Value :=
  a.convertWith a.kind.serialize a.serializer value

end Scim
