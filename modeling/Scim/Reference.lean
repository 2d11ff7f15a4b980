import Scim.Catalog
import Scim.Name

/-!
  # References to attributes

  Filters, paths, query parameters and data keys refer to attributes in three ways:

    * `Path`: an attribute or one of its sub-attributes, `name.givenName`, of no schema in
      particular;
    * `Qualified`: a path of one schema, `urn:…:User:name.givenName`, where the schema is what
      stands before the last colon;
    * `Reference`: either of them, told apart by the presence of a colon.

  All three compare up to case, part by part.
-/

namespace Scim

/-- An attribute, or one of its sub-attributes. -/
structure Path where
  attr : Name
  sub : Option Name
deriving DecidableEq, Repr

namespace Path

/-- An error that quotes the whole text, whichever part of it is wrong. -/
def orBadName {α : Type} (whole : String) (part : Option α) : Except Error α :=
  match part with
  | some a => .ok a
  | none => .error (.badAttributeName whole)

/-- One name, or two with a point between. -/
def parseChars? (cs : List Char) : Option Path :=
  match Text.splitAt '.' cs with
  | [attr] => (Name.parse? (String.ofList attr)).map fun attr => ⟨attr, none⟩
  | [attr, sub] => do
    return ⟨← Name.parse? (String.ofList attr), some (← Name.parse? (String.ofList sub))⟩
  | _ => none

/-- Reads a path. -/
def parse (s : String) : Except Error Path := orBadName s (parseChars? s.toList)

/-- Whether the path names a sub-attribute. -/
def isSub (p : Path) : Bool := p.sub.isSome

/-- The attribute that the path lies in. -/
def parent (p : Path) : Path := ⟨p.attr, none⟩

/-- A sub-attribute of the path's attribute. -/
def child (p : Path) (sub : Name) : Path := ⟨p.attr, some sub⟩

/-- Writes a path. -/
def text (p : Path) : String :=
  match p.sub with
  | some sub => p.attr.text ++ "." ++ sub.text
  | none => p.attr.text

/-- Equality of optional names. -/
def sameSub : Option Name → Option Name → Bool
  | none, none => true
  | some a, some b => a.same b
  | _, _ => false

/-- Equality up to case. -/
def same (p q : Path) : Bool := p.attr.same q.attr && sameSub p.sub q.sub

/-- The parts that decide equality. -/
def keys (p : Path) : String × Option String := (p.attr.key, p.sub.map Name.key)

end Path

/-- A path of one schema. -/
structure Qualified where
  schema : SchemaUri
  path : Path
deriving DecidableEq, Repr

namespace Qualified

/-- A top-level attribute of a schema. -/
def ofAttr (schema : SchemaUri) (attr : Name) : Qualified := ⟨schema, ⟨attr, none⟩⟩

/-- Splits at the last colon. -/
def splitLast? : List Char → Option (List Char × List Char)
  | [] => none
  | c :: rest =>
    match splitLast? rest with
    | some (before, after) => some (c :: before, after)
    | none => if c = ':' then some ([], rest) else none

/-- Reads a schema that the catalog knows, a colon and a path. -/
def parse (catalog : Catalog) (s : String) : Except Error Qualified :=
  match splitLast? s.toList with
  | none => .error (.badAttributeName s)
  | some (uri, path) => do
    let schema ← catalog.resolve (String.ofList uri)
    let path ← Path.orBadName s (Path.parseChars? path)
    return ⟨schema, path⟩

/-- Whether the path names a sub-attribute. -/
def isSub (q : Qualified) : Bool := q.path.isSub

/-- The attribute that the path lies in. -/
def parent (q : Qualified) : Qualified := ⟨q.schema, q.path.parent⟩

/-- A sub-attribute of the attribute. -/
def child (q : Qualified) (sub : Name) : Qualified := ⟨q.schema, q.path.child sub⟩

/-- Writes a qualified path. -/
def text (q : Qualified) : String := q.schema.text ++ ":" ++ q.path.text

/-- Equality up to case. -/
def same (p q : Qualified) : Bool := p.schema.same q.schema && p.path.same q.path

end Qualified

/-- A path, qualified or not. -/
inductive Reference where
  | plain (path : Path)
  | qualified (q : Qualified)
deriving DecidableEq, Repr

namespace Reference

/-- Reads a reference: a colon makes it a qualified one. -/
def parse (catalog : Catalog) (s : String) : Except Error Reference :=
  if s.toList.contains ':' then (Qualified.parse catalog s).map .qualified
  else (Path.parse s).map .plain

/-- The path, its schema left aside. -/
def path : Reference → Path
  | .plain p => p
  | .qualified q => q.path

/-- The schema of a qualified reference. -/
def schema? : Reference → Option SchemaUri
  | .plain _ => none
  | .qualified q => some q.schema

/-- The attribute named. -/
def attr (r : Reference) : Name := r.path.attr

/-- The sub-attribute named. -/
def sub (r : Reference) : Option Name := r.path.sub

/-- Whether a sub-attribute is named. -/
def isSub (r : Reference) : Bool := r.path.isSub

/-- The reference to the attribute itself. -/
def parent : Reference → Reference
  | .plain p => .plain p.parent
  | .qualified q => .qualified q.parent

/-- A sub-attribute of the attribute. -/
def child (r : Reference) (sub : Name) : Reference :=
  match r with
  | .plain p => .plain (p.child sub)
  | .qualified q => .qualified (q.child sub)

/-- Writes a reference. -/
def text : Reference → String
  | .plain p => p.text
  | .qualified q => q.text

/-- Equality up to case; a plain reference never equals a qualified one. -/
def same : Reference → Reference → Bool
  | .plain p, .plain q => p.same q
  | .qualified p, .qualified q => p.same q
  | _, _ => false

end Reference

end Scim
