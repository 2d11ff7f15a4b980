import Scim.Error
import Scim.Text.Blank
import Scim.Text.Casing

/-!
  # Schema URIs and the catalog

  A schema URI names a base schema or an extension.  The catalog knows the URIs in use: it only
  grows, it finds them up to case, and the first registration of a URI settles its casing and
  whether it is an extension.  A reference to an attribute of a schema can only be read where the
  catalog knows the schema.
-/

namespace Scim

namespace SchemaUri

/-- Whether a text may be registered: it holds a colon, does not end in one, and has no blanks. -/
def isWellFormed (uri : String) : Bool :=
  let cs := uri.toList
  cs.contains ':' && cs.getLast? != some ':' && !cs.any Text.isBlank

end SchemaUri

/-- A schema URI as it was registered. -/
structure SchemaUri where
  text : String
  isExtension : Bool
  wellFormed : SchemaUri.isWellFormed text = true
deriving DecidableEq, Repr

namespace SchemaUri

/-- What schema URIs are compared by. -/
def key (u : SchemaUri) : String := Text.lower u.text

/-- Whether two URIs are the same up to case. -/
def same (a b : SchemaUri) : Bool := a.key == b.key

end SchemaUri

/-- The schema URIs known, in the order of their registration. -/
structure Catalog where
  uris : List SchemaUri
deriving Repr

namespace Catalog

/-- Knows nothing. -/
def empty : Catalog := ⟨[]⟩

/-- The registered URI that a text names up to case. -/
def lookup (c : Catalog) (uri : String) : Option SchemaUri :=
  let key := Text.lower uri
  c.uris.find? (·.key == key)

/-- Whether a text names a registered URI. -/
def knows (c : Catalog) (uri : String) : Bool := (c.lookup uri).isSome

/-- The registered URI that a text names, or an error. -/
def resolve (c : Catalog) (uri : String) : Except Error SchemaUri :=
  match c.lookup uri with
  | some u => .ok u
  | none => .error (.unknownSchema uri)

/-- Registers a URI.  One that is known already keeps its first casing, and must be registered with
    the same extension flag again. -/
def register (c : Catalog) (uri : String) (isExtension : Bool) :
    Except BuildError (SchemaUri × Catalog) :=
  if h : SchemaUri.isWellFormed uri = true then
    match c.lookup uri with
    | some u => if u.isExtension = isExtension then .ok (u, c) else .error (.conflictingSchema uri)
    | none =>
      let u : SchemaUri := ⟨uri, isExtension, h⟩
      .ok (u, ⟨c.uris ++ [u]⟩)
  else .error (.invalidName uri)

/-- What is registered has the flag it is registered with. -/
theorem isExtension_of_register {c c' : Catalog} {uri : String} {isExtension : Bool} {u : SchemaUri}
    (h : c.register uri isExtension = .ok (u, c')) : u.isExtension = isExtension := by
  unfold register at h
  split at h
  · split at h
    · split at h
      · simp only [Except.ok.injEq, Prod.mk.injEq] at h
        exact h.1 ▸ ‹_›
      · simp at h
    · simp only [Except.ok.injEq, Prod.mk.injEq] at h
      rw [← h.1]
  · simp at h

end Catalog

end Scim
