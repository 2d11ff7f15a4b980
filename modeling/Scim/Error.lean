import Scim.Text.Listing

/-!
  # Errors, warnings and the error message

  An error names its cause; its text (`message`), its number (`code`) and the keyword and HTTP
  status that a protocol error message carries (`scimType?`, `status`) are functions of the cause.
  The numbers fall into bands: 1 to 99 for values, 100 to 199 for filters, 200 to 299 for paths and
  300 to 399 for modifications.

  Beside the errors of values and requests (`Error`) there are the remarks that do not reject a
  value (`Warning`), the mistakes of whoever defines a schema (`BuildError`), and the causes for
  which a call as a whole can fail (`Failure`).
-/

namespace Scim

/-! ## Errors of values, filters, paths and modifications -/

/-- Why a value, a filter, a path or a modification is rejected. -/
inductive Error where
  | badType (expected provided : String)
  | badEncoding (expected : String)
  | badSyntax (details : String)
  | mustBeOneOf (expected : List String) (provided : String)
  | multiplePrimaryValues
  | missingValue
  | mustNotBeProvided
  | mustNotBeReturned
  | typeConflict (key details : String)
  | unknownSchema (uri : String)
  | baseSchemaKey (uri : String)
  | missingSchemaExtension (uri : String)
  | missingBaseSchema (uri : String)
  | badReference (allowed : List String)
  | cannotBeUsedTogether (other : String)
  | notSupported (feature : String)
  | notUnique (attr : String)
  | custom (text : String)
  | unbalancedBracket (bracket : Char) (expression : String)
  | emptyExpression
  | unknownOperator (arity operator expression : String)
  | missingOperand (operator expression : String)
  | complexSubAttribute (attr expression : String)
  | badOperand (operand : String)
  | incompatibleOperand (operator operandType : String)
  | badAttributeName (attr : String)
  | unknownExpression (expression : String)
  | badPath (path details : String)
  | unknownTarget (path : String)
  | cannotModify (mutability : String)
  | cannotRemoveRequired
  | missingPath
deriving DecidableEq, Repr

/-- What an error says. -/
def Error.message : Error → String
  | .badType expected provided => s!"bad type, expecting '{expected}' but got '{provided}'"
  | .badEncoding expected => s!"bad encoding, expecting '{expected}'"
  | .badSyntax details => s!"bad value syntax: {details}"
  | .mustBeOneOf expected provided =>
    "must be one of " ++ Text.listing expected ++ ", but got '" ++ provided ++ "'"
  | .multiplePrimaryValues => "multiple primary values set"
  | .missingValue => "missing"
  | .mustNotBeProvided => "must not be provided"
  | .mustNotBeReturned => "must not be returned"
  | .typeConflict key details => s!"can not set '{key}': {details}"
  | .unknownSchema uri => s!"unknown schema '{uri}'"
  | .baseSchemaKey uri => s!"base schema '{uri}' can not be used as a key"
  | .missingSchemaExtension uri => s!"extension '{uri}' is missing in 'schemas'"
  | .missingBaseSchema uri => s!"base schema '{uri}' is missing in 'schemas'"
  | .badReference allowed => "reference must point to one of " ++ Text.listing allowed
  | .cannotBeUsedTogether other => s!"can not be used together with '{other}'"
  | .notSupported feature => s!"{feature} is not supported"
  | .notUnique attr => s!"value of '{attr}' is not unique"
  | .custom text => text
  | .unbalancedBracket bracket expression =>
    s!"bracket '{bracket}' is not opened or closed in expression '{expression}'"
  | .emptyExpression => "empty expression"
  | .unknownOperator arity operator expression =>
    s!"unknown {arity} operator '{operator}' in expression '{expression}'"
  | .missingOperand operator expression =>
    s!"missing operand for operator '{operator}' in expression '{expression}'"
  | .complexSubAttribute attr expression =>
    s!"complex attribute '{attr}' can only filter its own sub-attributes, got '{expression}'"
  | .badOperand operand => s!"bad operand '{operand}'"
  | .incompatibleOperand operator operandType =>
    s!"operator '{operator}' is not compatible with operand of type '{operandType}'"
  | .badAttributeName attr => s!"bad attribute name '{attr}'"
  | .unknownExpression expression => s!"unknown expression '{expression}'"
  | .badPath path details => s!"bad path '{path}': {details}"
  | .unknownTarget path => s!"unknown target '{path}'"
  | .cannotModify mutability => s!"attribute with '{mutability}' mutability can not be modified"
  | .cannotRemoveRequired => "required attribute can not be removed"
  | .missingPath => "path is required for this operation"

/-- The number of an error's cause. -/
def Error.code : Error → Nat
  | .badType .. => 1
  | .badEncoding .. => 2
  | .badSyntax .. => 3
  | .mustBeOneOf .. => 4
  | .multiplePrimaryValues => 5
  | .missingValue => 6
  | .mustNotBeProvided => 7
  | .mustNotBeReturned => 8
  | .typeConflict .. => 9
  | .unknownSchema .. => 10
  | .baseSchemaKey .. => 11
  | .missingSchemaExtension .. => 12
  | .missingBaseSchema .. => 13
  | .badReference .. => 14
  | .cannotBeUsedTogether .. => 15
  | .notSupported .. => 16
  | .notUnique .. => 17
  | .custom .. => 99
  | .unbalancedBracket .. => 100
  | .emptyExpression => 101
  | .unknownOperator .. => 102
  | .missingOperand .. => 103
  | .complexSubAttribute .. => 104
  | .badOperand .. => 105
  | .incompatibleOperand .. => 106
  | .badAttributeName .. => 107
  | .unknownExpression .. => 108
  | .badPath .. => 200
  | .unknownTarget .. => 201
  | .cannotModify .. => 300
  | .cannotRemoveRequired => 301
  | .missingPath => 302

/-! ## Error messages of the protocol -/

/-- The keywords of the protocol that a rejected request can carry. -/
inductive ScimType where
  | invalidFilter
  | uniqueness
  | mutability
  | invalidPath
  | noTarget
  | invalidValue
deriving DecidableEq, Repr

/-- The keyword itself. -/
def ScimType.text : ScimType → String
  | .invalidFilter => "invalidFilter"
  | .uniqueness => "uniqueness"
  | .mutability => "mutability"
  | .invalidPath => "invalidPath"
  | .noTarget => "noTarget"
  | .invalidValue => "invalidValue"

/-- The keyword for an error; a feature that is not supported has none. -/
def Error.scimType? (e : Error) : Option ScimType :=
  let code := e.code
  if code = 16 then none
  else if code = 17 then some .uniqueness
  else if 100 ≤ code ∧ code ≤ 199 then some .invalidFilter
  else if 200 ≤ code ∧ code ≤ 299 then some .invalidPath
  else if code = 300 then some .mutability
  else if code = 302 then some .noTarget
  else some .invalidValue

/-- The HTTP status for an error: not implemented, conflict or bad request. -/
def Error.status (e : Error) : Nat :=
  match e.scimType? with
  | none => 501
  | some .uniqueness => 409
  | some _ => 400

/-- The schema URI of error messages. -/
def errorMessageUri : String := "urn:ietf:params:scim:api:messages:2.0:Error"

/-- The body of an error message. -/
structure ErrorResponse where
  schemas : List String
  status : String
  scimType : Option ScimType
  detail : String
deriving DecidableEq, Repr

/-- The body for a status, a keyword and a text. -/
def ErrorResponse.of (status : Nat) (scimType : Option ScimType) (detail : String) :
    ErrorResponse :=
  ⟨[errorMessageUri], toString status, scimType, detail⟩

/-! ## Warnings -/

/-- What is remarked about a value that is accepted. -/
inductive Warning where
  | notCanonical (expected : List String) (provided : String)
  | custom (text : String)
deriving DecidableEq, Repr

/-- What a warning says. -/
def Warning.message : Warning → String
  | .notCanonical expected provided =>
    "should be one of " ++ Text.listing expected ++ ", but got '" ++ provided ++ "'"
  | .custom text => text

/-- The number of a warning's cause. -/
def Warning.code : Warning → Nat
  | .notCanonical .. => 1
  | .custom .. => 99

/-! ## Mistakes in definitions, and failures of whole calls -/

/-- Why a schema, an attribute, an operator or a registry can not be built. -/
inductive BuildError where
  | unknownSchema (uri : String)
  | conflictingSchema (uri : String)
  | duplicateSchema (uri : String)
  | duplicateEndpoint (endpoint : String)
  | duplicateOperator (operator : String)
  | invalidName (name : String)
  | duplicateAttribute (name : String)
  | nestedComplexAttribute (attr sub : String)
  | invalidConfiguration (text : String)
deriving DecidableEq, Repr

/-- What a mistake in a definition is reported as. -/
def BuildError.message : BuildError → String
  | .unknownSchema uri => s!"unknown schema '{uri}'"
  | .conflictingSchema uri =>
    s!"schema '{uri}' is already registered with a different extension flag"
  | .duplicateSchema uri => s!"schema '{uri}' is already registered"
  | .duplicateEndpoint endpoint => s!"endpoint '{endpoint}' is already registered"
  | .duplicateOperator operator => s!"operator '{operator}' is already registered"
  | .invalidName name => s!"invalid name '{name}'"
  | .duplicateAttribute name => s!"attribute '{name}' is defined more than once"
  | .nestedComplexAttribute attr sub =>
    s!"complex attribute '{attr}' can not have complex sub-attribute '{sub}'"
  | .invalidConfiguration text => s!"invalid configuration: {text}"

/-- Why a call as a whole fails. -/
inductive Failure where
  | validation (error : Error)
  | build (error : BuildError)
  /-- A text is not JSON, or not JSON of the expected shape, for the cause that its reader gives. -/
  | json (cause : String)
  /-- The call makes no sense for the value it is applied to. -/
  | invalidUsage (text : String)
deriving DecidableEq, Repr

/-- What a failure is reported as. -/
def Failure.message : Failure → String
  | .validation error => "Validation error: " ++ error.message
  | .build error => "Configuration error: " ++ error.message
  | .json cause => "JSON error: " ++ cause
  | .invalidUsage text => "Invalid usage: " ++ text

/-- Two steps succeed if the first does, and the second with what it gives. -/
theorem bind_eq_ok {ε α β : Type} {first : Except ε α} {next : α → Except ε β} {b : β} :
    (first >>= next) = .ok b ↔ ∃ a, first = .ok a ∧ next a = .ok b := by
  cases first <;> simp [bind, Except.bind]

end Scim
