import Scim.Attribute.Basic
import Scim.Base64
import Scim.Text.Blank

/-!
  # Checking values of attributes

  Two checks, independent of each other.

    * `validate` looks at a value that is there: is it of the right kind, is its text well formed,
      is it canonical, are its sub-attributes right in their turn.  A value of the wrong kind halts,
      and the attribute's own validators run only where nothing halted.
    * `validatePresence` looks at whether there should be a value: that depends on the direction the
      data flows in, on who issues the attribute, and on what was asked for.
-/

namespace Scim

/-! ## Texts -/

/-- The characters of a URI scheme after the first. -/
def isSchemeChar (c : Char) : Bool :=
  Name.isLetter c || ('0' ≤ c && c ≤ '9') || c == '+' || c == '.' || c == '-'

/-- Whether a text is an absolute URI: a scheme that starts with a letter, a colon, and at least one
    more character, none of them blank. -/
def isAbsoluteUri (s : String) : Bool :=
  let cs := s.toList
  match cs.takeWhile (· != ':'), cs.dropWhile (· != ':') with
  | c :: scheme, _ :: rest =>
    Name.isLetter c && scheme.all isSchemeChar && !rest.isEmpty && !rest.any Text.isBlank
  | _, _ => false

/-- Whether a text is something, without blanks. -/
def isUnbroken (s : String) : Bool := s != "" && !s.toList.any Text.isBlank

/-- Whether a path segment names a resource type, in the singular or with an s. -/
def namesType (segment : List Char) (type : String) : Bool :=
  Text.sameAscii segment type.toList || Text.sameAscii segment (type.toList ++ ['s'])

/-- Whether a reference leads to a resource of one of the types. -/
def leadsTo (types : List String) (s : String) : Bool :=
  isUnbroken s &&
    (types.isEmpty || (Text.splitAt '/' s.toList).any fun segment => types.any (namesType segment))

/-! ## Kinds -/

namespace SimpleKind

/-- What is wrong with the kind of a value.  Integers will do for decimals, and the text of a
    date-time for the date-time itself. -/
def kindError? (k : SimpleKind) (value : Value) : Option Error :=
  match k, value with
  | .boolean, .boolean _ => none
  | .integer, .integer _ => none
  | .decimal, .integer _ => none
  | .decimal, .decimal _ => none
  | .dateTime, .dateTime _ => none
  | .dateTime, .string s =>
    if (DateTime.parse? s).isSome then none
    else some (.badSyntax s!"'{s}' is not a valid RFC 3339 date-time")
  | k, .string _ =>
    if k.isStringLike then none else some (.badType k.type.text value.typeName)
  | k, _ => some (.badType k.type.text value.typeName)

/-- What is wrong with the text of a value, and whether checking may proceed. -/
def textError? (k : SimpleKind) (s : String) : Option (Error × Bool) :=
  match k with
  | .binary => if Base64.isValid s then none else some (.badEncoding "base64", false)
  | .externalReference =>
    if isAbsoluteUri s then none else some (.badSyntax s!"'{s}' is not an absolute URI", false)
  | .uriReference => if isUnbroken s then none else some (.badSyntax s!"'{s}' is not a URI", false)
  | .scimReference types => if leadsTo types s then none else some (.badReference types, true)
  | _ => none

end SimpleKind

/-! ## Canonical values -/

namespace Characteristics

/-- Whether a text is among the canonical values. -/
def isCanonical (c : Characteristics) (s : String) : Bool :=
  c.canonicalValues.any fun canonical =>
    if c.caseExact then canonical == s else Text.lower canonical == Text.lower s

/-- The issues of a text that is not canonical: an error if the canonical values are the only ones
    allowed, a warning otherwise. -/
def checkCanonical (c : Characteristics) (s : String) (issues : Issues) : Issues :=
  if c.canonicalValues.isEmpty || c.isCanonical s then issues
  else if c.restrictCanonical then
    issues.addError (.mustBeOneOf c.canonicalValues s) false .root
  else issues.addWarning (.notCanonical c.canonicalValues s) .root

/-! ## Presence -/

/-- Whether a value is to come from the service provider, not from this request. -/
def isServiceIssued (c : Characteristics) (direction : Direction) (ignoreIssuer : Bool) : Bool :=
  direction == .request && c.issuer == .serviceProvider && !ignoreIssuer

/-- Checks whether a value may or must be there.

    A value is not to be provided in a request if the service provider issues it; it is not to be
    returned in a response if it is never returned, or was excluded and is not always returned.
    A required value is missing if it was asked for by name, or is always returned in a response,
    unless the service provider is to issue it. -/
def validatePresence (c : Characteristics) (value : Value) (direction : Direction)
    (inclusivity : Option Inclusivity) (ignoreIssuer : Bool) : Issues :=
  let serviceIssued := c.isServiceIssued direction ignoreIssuer
  if value.isPresent then
    if serviceIssued then .mild .mustNotBeProvided .root
    else if direction == .response && (c.returned == .never ||
        (c.returned != .always && inclusivity == some .excluded)) then
      .fatal .mustNotBeReturned .root
    else .empty
  else
    let requested := inclusivity == some .included ||
      (direction == .response && c.returned == .always)
    if c.required && !serviceIssued && requested then .fatal .missingValue .root else .empty

end Characteristics

/-! ## Values -/

/-- The number of complex elements that are marked as the primary one. -/
def primaryCount (items : List Value) : Nat :=
  items.countP fun item =>
    match item.complex?.bind (Record.get? · "primary") with
    | some (.boolean true) => true
    | _ => false

namespace AttributeOf

/-- Checks the elements of a list, from the index on. -/
def validateItems (single : Value → Issues) (issues : Issues) (index : Nat) : List Value → Issues
  | [] => issues
  | item :: rest =>
    let issues := if item.isNull then issues
      else issues.merge (single item) (.ofIndex index)
    validateItems single issues (index + 1) rest

/-- Checks a value whose elements are checked by `single`; `complex` says whether they have
    sub-attributes. -/
def validateWith {κ : Type} (a : AttributeOf κ) (complex : Bool) (single : Value → Issues)
    (value : Value) : Issues :=
  if value.isNull then .empty
  else
    let ofKind (issues : Issues) : Issues :=
      if issues.canProceed then
        a.validators.foldl (fun issues validator => issues.merge (validator value) .root) issues
      else issues
    if a.multiValued then
      match value with
      | .list items =>
        let issues := validateItems single .empty 0 items
        ofKind <| if complex && 1 < primaryCount items then
          issues.addError .multiplePrimaryValues true .root
        else issues
      | other => .fatal (.badType "list" other.typeName) .root
    else ofKind (single value)

end AttributeOf

namespace SubAttribute

/-- Checks one element. -/
def validateSingle (a : SubAttribute) (value : Value) : Issues :=
  match a.kind.kindError? value with
  | some error => .fatal error .root
  | none =>
    match value with
    | .string s =>
      a.checkCanonical s <|
        match a.kind.textError? s with
        | some (error, proceed) => Issues.empty.addError error proceed .root
        | none => .empty
    | _ => .empty

/-- Checks a value. -/
def validate (a : SubAttribute) (value : Value) : Issues :=
  a.validateWith false a.validateSingle value

end SubAttribute

namespace Attribute

/-- Checks the declared sub-attributes of a record. -/
def validateSubs (subs : List SubAttribute) (fields : Record) (issues : Issues) : Issues :=
  subs.foldl (fun issues sub =>
    match Record.get? fields sub.name.text with
    | some value => issues.merge (sub.validate value) (.ofName sub.name.text)
    | none => issues) issues

/-- Checks one element. -/
def validateSingle (a : Attribute) (value : Value) : Issues :=
  match a.kind with
  | .simple k =>
    SubAttribute.validateSingle
      { toCharacteristics := a.toCharacteristics, name := a.name, kind := k } value
  | .complex subs =>
    match value with
    | .complex fields => validateSubs subs.toList fields .empty
    | other => .fatal (.badType "complex" other.typeName) .root

/-- Checks a value. -/
def validate (a : Attribute) (value : Value) : Issues :=
  a.validateWith a.isComplex a.validateSingle value

end Attribute

end Scim
