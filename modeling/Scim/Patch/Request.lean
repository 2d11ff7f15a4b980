import Scim.Patch.Operation
import Scim.ServiceConfig

/-!
  # Requests to modify a resource

  The body of such a request names the schema of its message and lists operations.  Operations are
  read and checked one by one (`readItem`), so the issues of one never depend on the others.  A
  request is accepted as a whole or not at all: its operations are there only if nothing is wrong.
-/

namespace Scim

/-- The schema URI of requests to modify a resource. -/
def patchMessageUri : String := "urn:ietf:params:scim:api:messages:2.0:PatchOp"

/-- What reading a request depends on beside its body. -/
structure PatchContext where
  catalog : Catalog
  operators : Operators
  schema : Schema

/-! ## Single operations -/

namespace Operation

/-- Reads what an operation does. -/
def readOp (r : Record) : Except Error PatchOp :=
  match Record.getD r "op" with
  | .null => .error .missingValue
  | .string s => PatchOp.parse s
  | other => .error (.badType "string" other.typeName)

/-- Reads the path of an operation, if there is one. -/
def readPath (ctx : PatchContext) (r : Record) : Except Issues (Option PatchPath) :=
  match Record.getD r "path" with
  | .null => .ok none
  | .string s => (PatchPath.parse ctx.catalog ctx.operators s).map some
  | other => .error (.fatal (.badType "string" other.typeName) .root)

/-- Reads an operation. -/
def read (ctx : PatchContext) (r : Record) : Except Issues Operation :=
  let atOp := Location.ofName "op"
  match readOp r, readPath ctx r with
  | .ok op, .ok path => .ok ⟨op, path, Record.get? r "value"⟩
  | .error e, .ok _ => .error (.fatal e atOp)
  | .ok _, .error issues => .error (Issues.empty.merge issues atPath)
  | .error e, .error issues => .error ((Issues.fatal e atOp).merge issues atPath)

end Operation

/-! ## Requests -/

/-- A request that was accepted. -/
structure PatchRequest where
  operations : List Operation
  /-- What was remarked about the values. -/
  warnings : Issues

namespace PatchRequest

/-- Reads and checks an item of the list of operations; the issues lie below the item. -/
def readItem (ctx : PatchContext) (item : Value) : Option Operation × Issues :=
  match item with
  | .complex r =>
    match Operation.read ctx r with
    | .ok o => (some o, o.validate ctx.schema)
    | .error issues => (none, issues)
  | other => (none, .fatal (.badType "complex" other.typeName) .root)

/-- The place of the operations. -/
def atOperations : Location := .ofName "Operations"

/-- Reads and checks the operations. -/
def readItems (ctx : PatchContext) (items : List Value) : List Operation × Issues :=
  let read := items.map (readItem ctx)
  (read.filterMap (·.1),
    read.zipIdx.foldl (fun issues (item, i) => issues.merge item.2 (atOperations.childIndex i))
      .empty)

/-- Checks that the message names its schema. -/
def checkMessage (body : Record) : Issues :=
  let loc := Location.ofName "schemas"
  match Record.getD body "schemas" with
  | .null => .fatal .missingValue loc
  | .list uris =>
    if uris.any fun uri =>
      uri.string?.any fun s => Text.sameAscii s.toList patchMessageUri.toList
    then .empty
    else .fatal (.mustBeOneOf [patchMessageUri] (Value.list uris).toJson.text) loc
  | other => .fatal (.badType "list" other.typeName) loc

/-- Reads the list of operations, which must not be empty. -/
def readOperations (ctx : PatchContext) (body : Record) : List Operation × Issues :=
  match Record.getD body "Operations" with
  | .null | .list [] => ([], .fatal .missingValue atOperations)
  | .list items => readItems ctx items
  | other => ([], .fatal (.badType "list" other.typeName) atOperations)

/-- Reads and checks a request. -/
def parse (ctx : PatchContext) (config : ServiceConfig) (body : Record) :
    Except Issues PatchRequest :=
  if !config.patch.supported then .error (.fatal (.notSupported "PATCH") .root)
  else
    let (operations, found) := readOperations ctx body
    let issues := (checkMessage body).merge found .root
    if issues.hasErrors then .error issues else .ok ⟨operations, issues⟩

end PatchRequest

end Scim
