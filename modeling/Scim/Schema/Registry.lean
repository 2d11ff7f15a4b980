import Std.Data.HashMap
import Scim.Schema.Representation
import Scim.Value.Basic

/-!
  # The schemas of a service

  A service has schemas under their URIs, each serving one endpoint.  Neither a URI nor an endpoint
  is taken twice, up to case.  The schemas stand in the order of their registration, and two indices
  lead from a URI and from an endpoint to the place of the schema in that order.
-/

namespace Scim

/-- The schemas of a service, in the order of their registration, with the place of each under the
    keys of its URI and of its endpoint. -/
structure Registry where
  schemas : List Schema
  byUri : Std.HashMap String Nat
  byEndpoint : Std.HashMap String Nat

namespace Registry

/-- No schemas. -/
def empty : Registry := ⟨[], ∅, ∅⟩

/-- What endpoints are compared by. -/
def endpointKey (s : Schema) : String := Text.lower s.endpoint

/-- Adds a schema, whose URI and endpoint must be free. -/
def register (g : Registry) (s : Schema) : Except BuildError Registry :=
  if g.byUri.contains s.uri.key then .error (.duplicateSchema s.uri.text)
  else if g.byEndpoint.contains (endpointKey s) then .error (.duplicateEndpoint s.endpoint)
  else .ok
    { schemas := g.schemas ++ [s]
      byUri := g.byUri.insert s.uri.key g.schemas.length
      byEndpoint := g.byEndpoint.insert (endpointKey s) g.schemas.length }

/-- The schema at the place that an index has for a key. -/
def at? (g : Registry) (index : Std.HashMap String Nat) (key : String) : Option Schema :=
  index[key]?.bind fun place => g.schemas[place]?

/-- The schema of a base URI. -/
def get? (g : Registry) (uri : String) : Option Schema := g.at? g.byUri (Text.lower uri)

/-- The schema of a base URI that the catalog knows. -/
def getKnown? (g : Registry) (c : Catalog) (uri : String) : Option Schema :=
  (c.lookup uri).bind fun u => g.at? g.byUri u.key

/-- The schema that serves an endpoint. -/
def atEndpoint? (g : Registry) (endpoint : String) : Option Schema :=
  g.at? g.byEndpoint (Text.lower endpoint)

/-- The URIs that the `schemas` of a resource list. -/
def listedUris (r : Record) : List String :=
  match Record.get? r "schemas" with
  | some (.list items) => items.filterMap Value.string?
  | _ => []

/-- The schema of a resource: the first one that its `schemas` name. -/
def forData? (g : Registry) (r : Record) : Option Schema := (listedUris r).findSome? g.get?

/-- The extensions that the schemas use, one schema after the other. -/
def uses (g : Registry) : List Extension :=
  g.schemas.flatMap fun s => s.extensions.map ExtensionUse.extension

/-- The extensions of all schemas, each once. -/
def extensions (g : Registry) : List Extension :=
  g.uses.foldl (fun seen e => if seen.any (·.uri.same e.uri) then seen else seen ++ [e]) []

/-- The representations of all base schemas, and of all extensions after them. -/
def schemasJson (g : Registry) : List Json :=
  g.schemas.map Schema.toJson ++ g.extensions.map Extension.toJson

/-- The representations of all resource types. -/
def resourceTypesJson (g : Registry) : List Json := g.schemas.map Schema.resourceTypeJson

end Registry

end Scim
