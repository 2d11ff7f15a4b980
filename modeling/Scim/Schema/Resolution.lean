import Scim.Reference
import Scim.Schema.Basic

/-!
  # Finding attributes in a schema

  A schema has parts, the base and its extensions, and every attribute belongs to one part.
  `attribute?` finds what a qualified path names; `resolve?` binds a reference of a user to a part,
  and gives nothing but qualified paths that `attribute?` finds.  `references` lists them all.
-/

namespace Scim.Schema

/-! ## Looking up -/

/-- One of the parts of a schema: its base or an extension. -/
structure Part where
  uri : SchemaUri
  attributes : AttributeSet Kind
  /-- Whether data of an extension must be there. -/
  required : Bool

/-- The base. -/
def basePart (s : Schema) : Part := ⟨s.uri, s.attributes, false⟩

/-- The parts that are extensions. -/
def extensionParts (s : Schema) : List Part :=
  s.extensions.map fun use => ⟨use.extension.uri, use.extension.attributes, use.required⟩

/-- All parts, the base first. -/
def parts (s : Schema) : List Part := s.basePart :: s.extensionParts

/-- The URIs of all parts. -/
def uris (s : Schema) : List SchemaUri := s.parts.map Part.uri

/-- The extension of a URI. -/
def extension? (s : Schema) (uri : SchemaUri) : Option Extension :=
  (s.extensions.map ExtensionUse.extension).find? (·.uri.same uri)

/-- The part of a URI. -/
def part? (s : Schema) (uri : SchemaUri) : Option Part := s.parts.find? (·.uri.same uri)

/-- The attribute or sub-attribute that a path names among the attributes of a part. -/
def Part.attribute? (p : Part) (path : Path) : Option Attribute := do
  let a ← p.attributes.find? path.attr
  match path.sub with
  | none => some a
  | some sub => ((← Attribute.subs? a).find? sub).map SubAttribute.lift

/-- The attribute or sub-attribute that a qualified path names. -/
def attribute? (s : Schema) (q : Qualified) : Option Attribute :=
  (s.part? q.schema).bind fun p => p.attribute? q.path

/-- Binds a reference to the schema.  A plain one belongs to the first part that defines it; one
    that no part defines is bound to nothing. -/
def resolve? (s : Schema) (r : Reference) : Option Qualified :=
  match r with
  | .qualified q => if (s.attribute? q).isSome then some q else none
  | .plain path =>
    (s.parts.find? fun p => (p.attribute? path).isSome).map fun p => ⟨p.uri, path⟩

/-- The attribute that a reference names. -/
def attributeOf? (s : Schema) (r : Reference) : Option Attribute :=
  (s.resolve? r).bind s.attribute?

/-! ## Listing -/

/-- The references of an attribute and its sub-attributes, the sub-attributes first. -/
def Part.referencesOf (p : Part) (a : Attribute) : List Qualified :=
  let q := Qualified.ofAttr p.uri a.name
  (match Attribute.subs? a with
    | some subs => subs.toList.map fun sub => q.child sub.name
    | none => []) ++ [q]

/-- The references of all attributes and sub-attributes. -/
def references (s : Schema) : List Qualified :=
  s.parts.flatMap fun p => p.attributes.toList.flatMap p.referencesOf

/-- The references of what is required of an attribute and its sub-attributes. -/
def Part.requiredReferencesOf (p : Part) (a : Attribute) : List Qualified :=
  let q := Qualified.ofAttr p.uri a.name
  (match Attribute.subs? a with
    | some subs => (subs.toList.filter (·.required)).map fun sub => q.child sub.name
    | none => []) ++ if a.required then [q] else []

/-- The references of all required attributes and sub-attributes. -/
def requiredReferences (s : Schema) : List Qualified :=
  s.parts.flatMap fun p => p.attributes.toList.flatMap p.requiredReferencesOf

end Scim.Schema
