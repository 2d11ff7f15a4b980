import Scim.Attribute.Validation
import Scim.Schema.Presence
import Scim.Schema.Resolution

/-!
  # Checking resources

  A resource is checked attribute by attribute, in the order of its schema, never in the order of
  its data.  Each attribute is checked in three steps, and a step is left out where an earlier one
  halted: should there be a value, is the value right, and should there be values of the
  sub-attributes in each of its elements.

    * `validate` checks a complete resource: required extensions must have data, and `schemas` must
      list what the resource conforms to;
    * `validatePartial` checks a resource of which some attributes may be left out.

  Issues of an extension lie below its URI, all others below the name of their attribute.
-/

namespace Scim.Schema

/-! ## Attributes -/

/-- The place of an attribute in a resource. -/
def Part.locationOf (p : Part) (a : Attribute) : Location :=
  if p.uri.isExtension then [.name p.uri.text, .name a.name.text] else [.name a.name.text]

/-- The elements of a value with their places: the items of a list, or else the value itself. -/
def elementsOf (a : Attribute) (value : Value) (loc : Location) : List (Location × Value) :=
  match value with
  | .list items =>
    if a.multiValued then items.zipIdx.map fun (item, i) => (loc.childIndex i, item)
    else [(loc, value)]
  | value => [(loc, value)]

/-- Checks whether the sub-attributes of one element should be there. -/
def validateElement (config : Presence) (q : Qualified) (subs : List SubAttribute) (issues : Issues)
    (element : Location × Value) : Issues :=
  match element.2.complex? with
  | none => issues
  | some fields =>
    issues.unlessHalted element.1 fun issues =>
      subs.foldl (fun issues sub =>
        let p := q.child sub.name
        issues.merge
          (sub.validatePresence (Record.getD fields sub.name.text) config.direction
            (config.inclusivity p) (config.ignoresIssuer p))
          (element.1.childName sub.name.text)) issues

/-- Checks the sub-attributes of all elements. -/
def validateElements (config : Presence) (a : Attribute) (q : Qualified) (value : Value)
    (loc : Location) (issues : Issues) : Issues :=
  match Attribute.subs? a with
  | none => issues
  | some subs => (elementsOf a value loc).foldl (validateElement config q subs.toList) issues

/-- Checks an attribute in three steps. -/
def validateAttribute (config : Presence) (a : Attribute) (q : Qualified) (value : Value)
    (loc : Location) (issues : Issues) : Issues :=
  let presence :=
    a.validatePresence value config.direction (config.inclusivity q) (config.ignoresIssuer q)
  (issues.merge presence loc).unlessHalted loc fun issues =>
    if value.isNull then issues
    else
      (issues.merge (Attribute.validate a value) loc).unlessHalted loc
        (validateElements config a q value loc)

/-! ## Parts -/

/-- The data of a part, or what stands in its place.  The data of an extension may be left out. -/
def Part.data (p : Part) (r : Record) : Except Value Record :=
  if p.uri.isExtension then
    match Record.get? r p.uri.text with
    | some (.complex fields) => .ok fields
    | none | some .null => .ok []
    | some other => .error other
  else .ok r

/-- Checks the attributes of a part.  With `complete` set, a required extension must have data. -/
def validatePart (r : Record) (config : Presence) (complete : Bool) (issues : Issues) (p : Part) :
    Issues :=
  match p.data r with
  | .error other =>
    issues.addError (.badType "complex" other.typeName) false (.ofName p.uri.text)
  | .ok fields =>
    if complete && p.required && fields.isEmpty then
      issues.addError .missingValue false (.ofName p.uri.text)
    else
      p.attributes.toList.foldl (fun issues a =>
        validateAttribute config a (Qualified.ofAttr p.uri a.name)
          (Record.getD fields a.name.text) (p.locationOf a) issues) issues

/-- Checks the attributes of all parts. -/
def validateAttributes (s : Schema) (r : Record) (config : Presence) (complete : Bool) : Issues :=
  s.parts.foldl (validatePart r config complete) .empty

/-! ## The list of schemas -/

/-- Whether a text among the items is a URI up to case. -/
def declares (items : List Value) (uri : SchemaUri) : Bool :=
  items.any fun item =>
    match item with
    | .string s => Text.lower s == uri.key
    | _ => false

/-- Reports the items that are no URI of the schema, from the index on. -/
def reportUnknown (known : List SchemaUri) (issues : Issues) (index : Nat) : List Value → Issues
  | [] => issues
  | .string s :: rest =>
    let issues := if known.any (·.key == Text.lower s) then issues
      else issues.addError (.unknownSchema s) true [.name "schemas", .index index]
    reportUnknown known issues (index + 1) rest
  | _ :: rest => reportUnknown known issues (index + 1) rest

/-- Reports the extensions that have data but are not named. -/
def reportMissing (s : Schema) (r : Record) (items : List Value) (issues : Issues) : Issues :=
  s.extensionParts.foldl (fun issues p =>
    if (Record.getD r p.uri.text).isPresent && !declares items p.uri then
      issues.addError (.missingSchemaExtension p.uri.text) true (.ofName "schemas")
    else issues) issues

/-- Checks the list of schemas against the schema and the data: it must name the base, nothing
    unknown, and every extension that has data. -/
def validateSchemas (s : Schema) (r : Record) (issues : Issues) : Issues :=
  let loc := Location.ofName "schemas"
  issues.unlessHalted loc fun issues =>
    match Record.get? r "schemas" with
    | some (.list items) =>
      let issues := if declares items s.uri then issues
        else issues.addError (.missingBaseSchema s.uri.text) true loc
      s.reportMissing r items (reportUnknown s.uris issues 0 items)
    | _ => issues

/-! ## Resources -/

/-- Checks a complete resource. -/
def validate (s : Schema) (r : Record) (config : Presence) : Issues :=
  s.validateSchemas r (s.validateAttributes r config true)

/-- Checks part of a resource, as a request to change it would hold. -/
def validatePartial (s : Schema) (r : Record) : Issues := s.validateAttributes r .request false

end Scim.Schema
