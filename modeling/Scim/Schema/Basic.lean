import Scim.Attribute.Basic
import Scim.Catalog

/-!
  # Schemas of resources

  The schema of a resource type consists of a base schema and any number of extensions, each a set
  of attributes under a URI.  Four attributes are common to all resources and come first in every
  base schema.

  Building a schema registers its URI in the catalog.  A schema that was built is coherent: its base
  URI is no extension, those of its extensions are, no two of them are the same (`Schema.distinct`),
  and the common attributes are there (`Schema.common`).
-/

namespace Scim

/-! ## Parts of a schema -/

/-- Attributes that resources of some type may have beside those of the type. -/
structure Extension where
  uri : SchemaUri
  name : String
  description : String
  attributes : AttributeSet Kind
  isExtension : uri.isExtension = true

/-- An extension as part of a schema. -/
structure ExtensionUse where
  extension : Extension
  /-- Whether every resource must have data of the extension. -/
  required : Bool

/-- The URIs that parts of a schema are found by. -/
def ExtensionUse.keys (uses : List ExtensionUse) : List String := uses.map (·.extension.uri.key)

/-! ## The common attributes -/

namespace CommonAttribute

/-- A read-only sub-attribute of the metadata. -/
def metaSub (name : Name) (kind : SimpleKind) (caseExact : Bool) : SubAttribute :=
  { name, kind, caseExact, mutability := .readOnly }

/-- The URIs of the schemas that a resource conforms to. -/
def schemas : Attribute :=
  { name := ⟨"schemas", by decide +kernel⟩
    kind := .simple .uriReference
    description := "Schema URIs the resource conforms to"
    required := true
    multiValued := true
    returned := .always }

/-- The identifier that the service provider issues. -/
def id : Attribute :=
  { name := ⟨"id", by decide +kernel⟩
    kind := .simple .string
    description := "Unique identifier assigned by the service provider"
    required := true
    caseExact := true
    mutability := .readOnly
    returned := .always
    uniqueness := .server
    issuer := .serviceProvider }

/-- The identifier that the client uses. -/
def externalId : Attribute :=
  { name := ⟨"externalId", by decide +kernel⟩
    kind := .simple .string
    description := "Identifier assigned by the provisioning client"
    caseExact := true }

/-- The sub-attributes of the metadata. -/
def metaSubs : AttributeSet SimpleKind where
  toList :=
    [ metaSub ⟨"resourceType", by decide +kernel⟩ .string true,
      metaSub ⟨"created", by decide +kernel⟩ .dateTime false,
      metaSub ⟨"lastModified", by decide +kernel⟩ .dateTime false,
      metaSub ⟨"location", by decide +kernel⟩ .uriReference true,
      metaSub ⟨"version", by decide +kernel⟩ .string true ]
  distinct := by decide +kernel

/-- The metadata that the service provider keeps. -/
def metadata : Attribute :=
  { name := ⟨"meta", by decide +kernel⟩
    kind := .complex metaSubs
    description := "Resource metadata"
    mutability := .readOnly
    issuer := .serviceProvider }

/-- All common attributes. -/
def all : List Attribute := [schemas, id, externalId, metadata]

/-- Whether a name belongs to a common attribute. -/
def hasName (name : Name) : Bool := all.any (·.name.same name)

end CommonAttribute

/-! ## Schemas -/

/-- The schema of a resource type. -/
structure Schema where
  uri : SchemaUri
  name : String
  endpoint : String
  description : String
  attributes : AttributeSet Kind
  extensions : List ExtensionUse
  isBase : uri.isExtension = false
  distinct : (uri.key :: ExtensionUse.keys extensions).Nodup
  /-- The common attributes come first. -/
  common : CommonAttribute.all <+: attributes.toList

/-! ## Building -/

/-- Registers the URI of an extension and builds the extension. -/
def Extension.build (catalog : Catalog) (uri name description : String)
    (attributes : List Attribute) : Except BuildError (Extension × Catalog) :=
  match h : catalog.register uri true with
  | .error e => .error e
  | .ok (u, catalog) => do
    let attributes ← AttributeSet.ofList attributes
    return (⟨u, name, description, attributes, Catalog.isExtension_of_register h⟩, catalog)

namespace Schema

/-- The first extension whose URI is among those seen before. -/
def firstRepeated? (seen : List String) : List ExtensionUse → Option ExtensionUse
  | [] => none
  | use :: rest =>
    if seen.contains use.extension.uri.key then some use
    else firstRepeated? (use.extension.uri.key :: seen) rest

/-- Where no key is repeated, all are distinct. -/
theorem nodup_of_firstRepeated?_eq_none {seen : List String} {uses : List ExtensionUse}
    (h : firstRepeated? seen uses = none) :
    (ExtensionUse.keys uses).Nodup ∧ ∀ k ∈ ExtensionUse.keys uses, k ∉ seen := by
  induction uses generalizing seen with
  | nil => simp [ExtensionUse.keys]
  | cons use rest ih =>
    unfold firstRepeated? at h
    split at h
    · simp at h
    · rename_i hseen
      have ⟨hnodup, hfresh⟩ := ih h
      simp only [ExtensionUse.keys, List.map_cons, List.nodup_cons, List.mem_cons] at *
      refine ⟨⟨fun hmem => hfresh _ hmem (Or.inl rfl), hnodup⟩, ?_⟩
      rintro k (rfl | hk)
      · simpa using hseen
      · exact fun hin => hfresh k hk (Or.inr hin)

/-- Registers the base URI and builds a schema.  No attribute may have the name of another one or of
    a common one, no extension may be added twice, and none may have the base URI. -/
def build (catalog : Catalog) (uri name endpoint description : String)
    (attributes : List Attribute) (extensions : List ExtensionUse) :
    Except BuildError (Schema × Catalog) :=
  match h : catalog.register uri false with
  | .error e => .error e
  | .ok (u, catalog) =>
    if hbase : (ExtensionUse.keys extensions).contains u.key then .error (.conflictingSchema uri)
    else match hattrs : AttributeSet.ofList (CommonAttribute.all ++ attributes) with
      | .error e => .error e
      | .ok attributes =>
        match hrep : firstRepeated? [] extensions with
        | some use => .error (.duplicateSchema use.extension.uri.text)
        | none =>
          .ok (⟨u, name, endpoint, description, attributes, extensions,
            Catalog.isExtension_of_register h,
            List.nodup_cons.2 ⟨by simpa using hbase, (nodup_of_firstRepeated?_eq_none hrep).1⟩,
            AttributeSet.toList_of_ofList hattrs ▸ List.prefix_append _ _⟩,
            catalog)

end Schema

end Scim
