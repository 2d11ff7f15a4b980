import Scim.Reference

/-!
  # Keys that address a part of a resource

  A key leads to the whole data of an extension, or to an attribute or sub-attribute.  Attributes of
  an extension lie in the record stored under the extension's URI; those of the base schema lie at
  the top, whether they are qualified or not.
-/

namespace Scim

/-- A part of a resource. -/
inductive Key where
  /-- All data of an extension. -/
  | extension (uri : SchemaUri)
  /-- An attribute or sub-attribute, of an extension or else of the base schema. -/
  | attr (within : Option SchemaUri) (path : Path)
deriving DecidableEq, Repr

namespace Key

/-- The key of a path. -/
def ofPath (p : Path) : Key := .attr none p

/-- The key of an attribute. -/
def ofName (n : Name) : Key := .attr none ⟨n, none⟩

/-- The key of a qualified path. -/
def ofQualified (q : Qualified) : Key :=
  .attr (if q.schema.isExtension then some q.schema else none) q.path

/-- The key of a reference. -/
def ofReference : Reference → Key
  | .plain p => ofPath p
  | .qualified q => ofQualified q

/-- The key of a schema: only extensions have data of their own. -/
def ofSchema (uri : SchemaUri) : Except Error Key :=
  if uri.isExtension then .ok (.extension uri) else .error (.baseSchemaKey uri.text)

/-- The key that a text names: a registered schema URI, a qualified path or a path. -/
def parse (catalog : Catalog) (s : String) : Except Error Key :=
  match catalog.lookup s with
  | some uri => ofSchema uri
  | none => (Reference.parse catalog s).map ofReference

/-- What keys are made from. -/
inductive Source where
  | text (s : String)
  | name (n : Name)
  | path (p : Path)
  | qualified (q : Qualified)
  | reference (r : Reference)
  | schema (uri : SchemaUri)

/-- The key that is made from a source. -/
def Source.key (catalog : Catalog) : Source → Except Error Key
  | .text s => parse catalog s
  | .name n => .ok (ofName n)
  | .path p => .ok (ofPath p)
  | .qualified q => .ok (ofQualified q)
  | .reference r => .ok (ofReference r)
  | .schema uri => ofSchema uri

end Key

end Scim
