import Scim.Json.Written

/-!
  # What a service supports

  A service tells whether it supports filters, sorting and modifications, and how many results it
  returns at most.  A configuration is read from JSON (`ServiceConfig.parse?`), a structure being
  written as an object or as an array of its fields in their order.  Fields that are left out keep
  their defaults, members that are no fields are ignored, and a field may not be written twice.
-/

namespace Scim

/-- The most results of a query, unless it is configured. -/
def defaultMaxResults : Nat := 200

/-- Whether filters are supported, and the most results of a query. -/
structure FilterConfig where
  supported : Bool := true
  maxResults : Nat := defaultMaxResults
deriving DecidableEq, Repr

/-- Whether sorting is supported. -/
structure SortConfig where
  supported : Bool := true
deriving DecidableEq, Repr

/-- Whether modifications are supported. -/
structure PatchConfig where
  supported : Bool := true
deriving DecidableEq, Repr

/-- What a service supports. -/
structure ServiceConfig where
  filter : FilterConfig := {}
  sort : SortConfig := {}
  patch : PatchConfig := {}
deriving DecidableEq, Repr

/-! ## Structures in JSON -/

namespace Json.Written

/-- The fields that a written structure gives, by name.  An array gives them in the order of the
    names and may not be longer; an object may have further members. -/
def fields? (names : List String) : Written → Option (List (String × Written))
  | .object members => do
    let members ← members.mapM fun (key, value) =>
      (Text.unescape key).map fun cs => (String.ofList cs, value)
    let known := members.filter fun (key, _) => names.contains key
    if (known.map (·.1)).Nodup then some known else none
  | .array items => if items.length ≤ names.length then some (names.zip items) else none
  | _ => none

/-- The value of a field; a field that is not given has a default. -/
def field? {α : Type} (read : Written → Option α) (default : α)
    (fields : List (String × Written)) (name : String) : Option α :=
  match fields.lookup name with
  | some written => read written
  | none => some default

/-- A truth value. -/
def bool? : Written → Option Bool
  | .constant (.bool b) => some b
  | _ => none

/-- A number without sign, fraction and exponent. -/
def size? : Written → Option Nat
  | .number n =>
    match n.value? with
    | some (.integer i) => if 0 ≤ i then some i.toNat else none
    | _ => none
  | _ => none

end Json.Written

open Json (Written)
open Json.Written (fields? field?)

/-- Reads the field that says whether something is supported. -/
def readSupported? (written : Written) : Option Bool := do
  field? Written.bool? true (← fields? ["supported"] written) "supported"

/-- Reads what is said of filters. -/
def FilterConfig.read? (written : Written) : Option FilterConfig := do
  let fields ← fields? ["supported", "maxResults"] written
  return {
    supported := ← field? Written.bool? true fields "supported"
    maxResults := ← field? Written.size? defaultMaxResults fields "maxResults" }

namespace ServiceConfig

/-- Reads a configuration. -/
def read? (written : Written) : Option ServiceConfig := do
  let fields ← fields? ["filter", "sort", "patch"] written
  return {
    filter := ← field? FilterConfig.read? {} fields "filter"
    sort := ⟨← field? readSupported? true fields "sort"⟩
    patch := ⟨← field? readSupported? true fields "patch"⟩ }

/-- Reads a configuration from a text. -/
def parse? (text : String) : Option ServiceConfig := (Written.parse? text.toList).bind read?

/-- Reads a configuration from a JSON value. -/
def ofJson? (json : Json) : Option ServiceConfig := parse? json.text

/-- Changes what is said of filters. -/
def withFilter (c : ServiceConfig) (supported : Bool) (maxResults : Nat) : ServiceConfig :=
  { c with filter := ⟨supported, maxResults⟩ }

/-- Changes what is said of sorting. -/
def withSort (c : ServiceConfig) (supported : Bool) : ServiceConfig :=
  { c with sort := ⟨supported⟩ }

/-- Changes what is said of modifications. -/
def withPatch (c : ServiceConfig) (supported : Bool) : ServiceConfig :=
  { c with patch := ⟨supported⟩ }

/-- Writes a configuration. -/
def toJson (c : ServiceConfig) : Json :=
  .ofMembers
    [ ("filter", .ofMembers
        [("supported", .bool c.filter.supported), ("maxResults", .integer c.filter.maxResults)]),
      ("sort", .ofMembers [("supported", .bool c.sort.supported)]),
      ("patch", .ofMembers [("supported", .bool c.patch.supported)]) ]

end ServiceConfig

end Scim
