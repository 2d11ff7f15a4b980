import Scim.Issues.Basic
import Scim.Json.Basic
import Scim.Value.Basic

/-!
  # Attribute characteristics

  What a schema says of an attribute beside its name and kind: who may change it and when it is
  returned, how unique it is, who issues it, which values it should take.  The keywords of a schema
  are read and written exactly as they stand here, case included.
-/

namespace Scim

/-! ## Keywords -/

/-- The data types that a schema names. -/
inductive AttributeType where
  | string
  | boolean
  | decimal
  | integer
  | dateTime
  | binary
  | reference
  | complex
deriving DecidableEq, Repr

namespace AttributeType

/-- All types. -/
def all : List AttributeType :=
  [.string, .boolean, .decimal, .integer, .dateTime, .binary, .reference, .complex]

/-- The keyword. -/
def text : AttributeType → String
  | .string => "string"
  | .boolean => "boolean"
  | .decimal => "decimal"
  | .integer => "integer"
  | .dateTime => "dateTime"
  | .binary => "binary"
  | .reference => "reference"
  | .complex => "complex"

/-- Reads the keyword. -/
def parse? (s : String) : Option AttributeType := all.find? (·.text == s)

end AttributeType

/-- Whether an attribute may change. -/
inductive Mutability where
  | readOnly
  | readWrite
  | immutable
  | writeOnly
deriving DecidableEq, Repr

namespace Mutability

/-- All of them. -/
def all : List Mutability := [.readOnly, .readWrite, .immutable, .writeOnly]

/-- The keyword. -/
def text : Mutability → String
  | .readOnly => "readOnly"
  | .readWrite => "readWrite"
  | .immutable => "immutable"
  | .writeOnly => "writeOnly"

/-- Reads the keyword. -/
def parse? (s : String) : Option Mutability := all.find? (·.text == s)

end Mutability

/-- When an attribute is returned. -/
inductive Returned where
  /-- Whatever was asked for. -/
  | always
  | never
  /-- Unless it is excluded. -/
  | byDefault
  /-- Only when it was asked for. -/
  | onRequest
deriving DecidableEq, Repr

namespace Returned

/-- All of them. -/
def all : List Returned := [.always, .never, .byDefault, .onRequest]

/-- The keyword. -/
def text : Returned → String
  | .always => "always"
  | .never => "never"
  | .byDefault => "default"
  | .onRequest => "request"

/-- Reads the keyword. -/
def parse? (s : String) : Option Returned := all.find? (·.text == s)

end Returned

/-- Among which values an attribute is unique. -/
inductive Uniqueness where
  | none
  | server
  | global
deriving DecidableEq, Repr

namespace Uniqueness

/-- All of them. -/
def all : List Uniqueness := [.none, .server, .global]

/-- The keyword. -/
def text : Uniqueness → String
  | .none => "none"
  | .server => "server"
  | .global => "global"

/-- Reads the keyword. -/
def parse? (s : String) : Option Uniqueness := all.find? (·.text == s)

end Uniqueness

/-- Who issues the values of an attribute. -/
inductive Issuer where
  | client
  | serviceProvider
deriving DecidableEq, Repr

namespace Issuer

/-- Both of them. -/
def all : List Issuer := [.client, .serviceProvider]

/-- The keyword. -/
def text : Issuer → String
  | .client => "client"
  | .serviceProvider => "serviceProvider"

/-- Reads the keyword. -/
def parse? (s : String) : Option Issuer := all.find? (·.text == s)

end Issuer

/-- A keyword in JSON: a string, or an object whose only member is the keyword with null. -/
def keyword? : Json → Option String
  | .string s => some s
  | .object [(key, .null)] => some key
  | _ => none

/-! ## Where data goes -/

/-- Whether data flows into the service or out of it. -/
inductive Direction where
  | request
  | response
deriving DecidableEq, Repr

/-- Whether an attribute was asked for or declined by name. -/
inductive Inclusivity where
  | included
  | excluded
deriving DecidableEq, Repr

/-! ## The characteristics -/

/-- What a schema says of an attribute. -/
structure Characteristics where
  description : String := ""
  required : Bool := false
  multiValued : Bool := false
  caseExact : Bool := false
  mutability : Mutability := .readWrite
  returned : Returned := .byDefault
  uniqueness : Uniqueness := .none
  issuer : Issuer := .client
  canonicalValues : List String := []
  /-- Whether values that are not canonical are rejected. -/
  restrictCanonical : Bool := false
  /-- Further checks, made on values of the right kind only. -/
  validators : List (Value → Issues) := []
  /-- Applied last when a value is written. -/
  serializer : Option (Value → Value) := none
  /-- Applied last when a value is read. -/
  deserializer : Option (Value → Value) := none

end Scim
