import Scim.Attribute.Basic

/-!
  # What values are compared as

  Values of a date-time attribute are compared as moments, and texts of an attribute that is not case
  exact in lower case.  Both sides of a comparison go through `Attribute.comparable`, so an operand
  is treated as a value of the attribute would be.
-/

namespace Scim.Attribute

/-- The form in which a value of the attribute is compared.  What does not fit stays as it is. -/
def comparable (a : Attribute) (value : Value) : Value :=
  match value with
  | .string s =>
    match a.type with
    | .dateTime =>
      match DateTime.parse? s with
      | some t => .dateTime t
      | none => .string s
    | .string | .reference => .string (if a.caseExact then s else Text.lower s)
    | _ => .string s
  | value => value

end Scim.Attribute
