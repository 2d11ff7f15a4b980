import Scim.Attribute.Representation
import Scim.Schema.Basic

/-!
  # Schemas and resource types as JSON

  What the service tells of its schemas and resource types.  The representation of a base schema
  leaves out the common attributes.
-/

namespace Scim

/-- The schema URI of schema representations. -/
def schemaRepresentationUri : String := "urn:ietf:params:scim:schemas:core:2.0:Schema"

/-- The schema URI of resource type representations. -/
def resourceTypeRepresentationUri : String :=
  "urn:ietf:params:scim:schemas:core:2.0:ResourceType"

/-- What a representation says of itself. -/
def representationMeta (resourceType location : String) : Json :=
  .ofMembers [("resourceType", .string resourceType), ("location", .string location)]

/-- The representation of attributes under a URI. -/
def schemaRepresentation (uri : SchemaUri) (name description : String)
    (attributes : List Attribute) : Json :=
  .ofMembers
    [ ("schemas", Json.ofStrings [schemaRepresentationUri]),
      ("id", .string uri.text),
      ("name", .string name),
      ("description", .string description),
      ("attributes", .array (attributes.map Attribute.toJson)),
      ("meta", representationMeta "Schema" ("/Schemas/" ++ uri.text)) ]

/-- The representation of an extension. -/
def Extension.toJson (e : Extension) : Json :=
  schemaRepresentation e.uri e.name e.description e.attributes.toList

namespace Schema

/-- The representation of the base schema. -/
def toJson (s : Schema) : Json :=
  schemaRepresentation s.uri s.name s.description
    (s.attributes.toList.filter fun a => !CommonAttribute.hasName a.name)

/-- The representation of the resource type. -/
def resourceTypeJson (s : Schema) : Json :=
  .ofMembers
    [ ("schemas", Json.ofStrings [resourceTypeRepresentationUri]),
      ("id", .string s.name),
      ("name", .string s.name),
      ("endpoint", .string s.endpoint),
      ("description", .string s.description),
      ("schema", .string s.uri.text),
      ("schemaExtensions", .array (s.extensions.map fun use =>
        .ofMembers [("schema", .string use.extension.uri.text), ("required", .bool use.required)])),
      ("meta", representationMeta "ResourceType" ("/ResourceTypes/" ++ s.name)) ]

end Schema

end Scim
