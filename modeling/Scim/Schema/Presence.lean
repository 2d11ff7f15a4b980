import Scim.Attribute.Characteristics
import Scim.Reference

/-!
  # What was asked for

  A request may name the attributes it wants to see, or those it does not want to see.  Whether an
  attribute is then `allowed` depends on the names listed for it, for the attribute it belongs to,
  and for its own sub-attributes; a plain reference speaks of the attributes of its name in all
  parts of a schema.
-/

namespace Scim

/-- The attributes that were asked for by name. -/
inductive Selection where
  /-- There is no list. -/
  | everything
  | including (refs : List Reference)
  | excluding (refs : List Reference)
deriving DecidableEq, Repr

namespace Selection

/-- The references listed. -/
def refs : Selection → List Reference
  | .everything => []
  | .including refs | .excluding refs => refs

/-- Whether the list includes, if there is one. -/
def includes? : Selection → Option Bool
  | .everything => none
  | .including _ => some true
  | .excluding _ => some false

/-- Whether a reference names a qualified path, schemas left aside if it has none. -/
def names (r : Reference) (q : Qualified) : Bool :=
  match r with
  | .plain p => p.same q.path
  | .qualified p => p.same q

/-- Whether one of the references names a qualified path. -/
def listed (refs : List Reference) (q : Qualified) : Bool := refs.any (names · q)

/-- Whether the list allows an attribute or sub-attribute.

    A listed one is allowed if the list includes, and a sub-attribute is treated as its attribute if
    that one is listed.  An inclusion list that names a sub-attribute allows its attribute, but none
    of its other sub-attributes.  What a list says nothing of is allowed if it excludes. -/
def allowed (s : Selection) (q : Qualified) : Bool :=
  match s.includes? with
  | none => true
  | some included =>
    if listed s.refs q then included
    else if q.isSub then
      let parentListed := listed s.refs q.parent
      let siblingListed := s.refs.any fun r => r.isSub && names r.parent q.parent && !names r q
      if siblingListed && !parentListed && included then false
      else if parentListed then included
      else !included
    else if included && s.refs.any (fun r => r.isSub && names r.parent q) then true
    else !included

/-- Whether an attribute or sub-attribute was asked for by name, or declined. -/
def inclusivity (s : Selection) (q : Qualified) : Option Inclusivity :=
  let requested := listed s.refs q || (q.isSub && listed s.refs q.parent)
  if s.includes? == some true && requested then some .included
  else if !s.allowed q then some .excluded
  else none

end Selection

/-- How the presence of values is checked. -/
structure Presence where
  direction : Direction
  selection : Selection := .everything
  /-- Attributes whose issuer does not matter. -/
  ignoreIssuer : List Reference := []
deriving DecidableEq, Repr

namespace Presence

/-- Data that comes in. -/
def request : Presence := { direction := .request }

/-- Data that goes out. -/
def response : Presence := { direction := .response }

/-- Only the listed attributes are asked for. -/
def including (p : Presence) (refs : List Reference) : Presence :=
  { p with selection := .including refs }

/-- The listed attributes are declined. -/
def excluding (p : Presence) (refs : List Reference) : Presence :=
  { p with selection := .excluding refs }

/-- The issuer of the listed attributes and of their sub-attributes does not matter. -/
def ignoringIssuer (p : Presence) (refs : List Reference) : Presence :=
  { p with ignoreIssuer := refs }

/-- Whether the list allows an attribute or sub-attribute. -/
def allowed (p : Presence) (q : Qualified) : Bool := p.selection.allowed q

/-- Whether an attribute or sub-attribute was asked for by name, or declined. -/
def inclusivity (p : Presence) (q : Qualified) : Option Inclusivity := p.selection.inclusivity q

/-- Whether the issuer of an attribute or sub-attribute does not matter. -/
def ignoresIssuer (p : Presence) (q : Qualified) : Bool :=
  Selection.listed p.ignoreIssuer q || (q.isSub && Selection.listed p.ignoreIssuer q.parent)

end Presence

end Scim
