import Scim.Schema.Presence
import Scim.Schema.Resolution
import Scim.Value.Basic

/-!
  # What is returned of a resource

  Projection drops from a resource what must not be returned: attributes that are never returned,
  those that are returned on request only and were not requested, and those that the list of
  attributes does not allow, unless they are always returned.  The same is done to the
  sub-attributes of every element that is kept, except below an attribute that is always returned.
  Elements and extensions of which nothing is left are dropped.
-/

namespace Scim.Schema

/-- Whether an attribute or sub-attribute is returned. -/
def returns (config : Presence) (c : Characteristics) (q : Qualified) : Bool :=
  match c.returned with
  | .never => false
  | .always => true
  | .onRequest => config.inclusivity q == some .included
  | .byDefault => config.allowed q

/-- What is returned of one element. -/
def projectElement (config : Presence) (q : Qualified) (subs : List SubAttribute)
    (fields : Record) : Record :=
  subs.filterMap fun sub =>
    if returns config sub.toCharacteristics (q.child sub.name) then
      (Record.get? fields sub.name.text).map fun value => (sub.name.text, value)
    else none

/-- What is returned of the elements of a complex attribute, if anything is. -/
def projectElements (config : Presence) (q : Qualified) (subs : List SubAttribute)
    (value : Value) : Option Value :=
  match value with
  | .complex fields =>
    let kept := projectElement config q subs fields
    if kept.isEmpty then none else some (.complex kept)
  | .list items =>
    let kept := (items.map fun item =>
      match item with
      | .complex fields => .complex (projectElement config q subs fields)
      | other => other).filter Value.isPresent
    if kept.isEmpty then none else some (.list kept)
  | other => some other

/-- What is returned of an attribute, if anything is. -/
def projectAttribute (config : Presence) (a : Attribute) (q : Qualified) (value : Value) :
    Option Value :=
  if !returns config a.toCharacteristics q then none
  else if a.returned == .always then some value
  else match Attribute.subs? a with
    | none => some value
    | some subs => projectElements config q subs.toList value

/-- What is returned of the data of a part. -/
def Part.project (config : Presence) (p : Part) (fields : Record) : Record :=
  p.attributes.toList.filterMap fun a => do
    let value ← Record.get? fields a.name.text
    let kept ← projectAttribute config a (Qualified.ofAttr p.uri a.name) value
    return (a.name.text, kept)

/-- What is returned of the data of an extension, under its URI. -/
def Part.projectExtension (config : Presence) (p : Part) (r : Record) : Record :=
  match Record.get? r p.uri.text with
  | some (.complex fields) =>
    let kept := p.project config fields
    if kept.isEmpty then [] else [(p.uri.text, .complex kept)]
  | _ => []

/-- What is returned of a resource. -/
def project (s : Schema) (r : Record) (config : Presence) : Record :=
  s.basePart.project config r ++ s.extensionParts.flatMap fun p => p.projectExtension config r

end Scim.Schema
