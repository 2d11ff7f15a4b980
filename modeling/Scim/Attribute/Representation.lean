import Scim.Attribute.Basic

/-!
  # Attributes as JSON

  How a schema representation describes an attribute.  Case-exactness is told of string-like kinds
  only, canonical values where there are any, reference types of references, and sub-attributes of
  complex attributes.
-/

namespace Scim

/-- What every description holds. -/
def AttributeOf.members {κ : Type} (a : AttributeOf κ) (type : AttributeType) :
    List (String × Json) :=
  [ ("name", .string a.name.text),
    ("type", .string type.text),
    ("multiValued", .bool a.multiValued),
    ("description", .string a.description),
    ("required", .bool a.required),
    ("mutability", .string a.mutability.text),
    ("returned", .string a.returned.text),
    ("uniqueness", .string a.uniqueness.text) ] ++
  if a.canonicalValues.isEmpty then [] else [("canonicalValues", Json.ofStrings a.canonicalValues)]

/-- What the description of a simple kind adds. -/
def SubAttribute.members (a : SubAttribute) : List (String × Json) :=
  AttributeOf.members a a.kind.type ++
  (if a.kind.isStringLike then [("caseExact", Json.bool a.caseExact)] else []) ++
  match a.kind.referenceTypes? with
  | some types => [("referenceTypes", Json.ofStrings types)]
  | none => []

/-- The description of a sub-attribute. -/
def SubAttribute.toJson (a : SubAttribute) : Json := .ofMembers a.members

/-- The description of an attribute. -/
def Attribute.toJson (a : Attribute) : Json :=
  match a.kind with
  | .simple k =>
    SubAttribute.toJson { toCharacteristics := a.toCharacteristics, name := a.name, kind := k }
  | .complex subs =>
    .ofMembers (AttributeOf.members a .complex ++
      [("subAttributes", .array (subs.toList.map SubAttribute.toJson))])

end Scim
