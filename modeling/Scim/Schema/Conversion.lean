import Scim.Attribute.Conversion
import Scim.Schema.Resolution
import Scim.Value.Plain

/-!
  # Resources on their way in and out

  A resource is read and written attribute by attribute, in the order of its schema.  What the
  schema does not declare is dropped.
-/

namespace Scim.Schema

/-- Converts the declared attributes of a resource. -/
def convert (s : Schema) (f : Attribute → Value → Value) (r : Record) : Record :=
  AttributeOf.convertRecord s.attributes.toList f r ++
    s.extensionParts.flatMap fun p =>
      match Record.get? r p.uri.text with
      | some (.complex fields) =>
        [(p.uri.text, .complex (AttributeOf.convertRecord p.attributes.toList f fields))]
      | _ => []

/-- Reads a resource: values become what their attributes declare. -/
def deserialize (s : Schema) (r : Record) : Record := s.convert Attribute.deserialize r

/-- Writes a resource as JSON. -/
def serialize (s : Schema) (r : Record) : Json := (s.convert Attribute.serialize r).toJson

end Scim.Schema
