import Scim.Filter.Parser
import Scim.Query.AttributeList
import Scim.Query.Sorting
import Scim.Schema.Presence
import Scim.ServiceConfig

/-!
  # Queries

  A query is given by parameters: which resources are wanted, in which order, which page of them,
  and which of their attributes.  Names of parameters are read up to the case of the letters a to z,
  and unknown parameters are ignored.  `Query.parse` reads the parameters one after the other;
  issues lie at the name of their parameter.  A query that was read says how it is answered: which
  attributes are shown (`Query.presence`), in which order (`Query.sorter?`), and which page of the
  resources (`Query.paginate`).
-/

namespace Scim

/-! ## Parameters -/

/-- The parameters of a query. -/
inductive Parameter where
  | attributes
  | excludedAttributes
  | filter
  | sortBy
  | sortOrder
  | startIndex
  | count
deriving DecidableEq, Repr

namespace Parameter

/-- All of them. -/
def all : List Parameter :=
  [.attributes, .excludedAttributes, .filter, .sortBy, .sortOrder, .startIndex, .count]

/-- The name. -/
def text : Parameter → String
  | .attributes => "attributes"
  | .excludedAttributes => "excludedAttributes"
  | .filter => "filter"
  | .sortBy => "sortBy"
  | .sortOrder => "sortOrder"
  | .startIndex => "startIndex"
  | .count => "count"

/-- The parameter of a name. -/
def ofName? (name : String) : Option Parameter :=
  all.find? fun p => Text.sameAscii p.text.toList name.toList

/-- The place of issues of a parameter. -/
def location (p : Parameter) : Location := .ofName p.text

end Parameter

/-- What reading a query depends on beside its parameters. -/
structure QueryContext where
  catalog : Catalog
  operators : Operators
  config : ServiceConfig

/-- A query. -/
structure Query where
  attributes : Option AttributeList := none
  excludedAttributes : Option AttributeList := none
  filter : Option Filter := none
  sortBy : Option Reference := none
  sortOrder : SortOrder := .ascending
  /-- The first resource that is wanted, counted from one. -/
  startIndex : Nat := 1
  /-- The number of resources that are wanted, all if there is none. -/
  count : Option Nat := none

/-! ## Reading -/

/-- The number that digits write; at least one digit, and nothing else. -/
def readDigits? (cs : List Char) : Option Nat :=
  if cs.isEmpty || !cs.all Json.Numeral.isDigit then none else some (Json.Numeral.natValue cs)

/-- A 64-bit number that digits write, perhaps with a sign before them. -/
def readInteger? (cs : List Char) : Option Int := do
  let n ← match cs with
    | '+' :: digits => (readDigits? digits).map Int.ofNat
    | '-' :: digits => (readDigits? digits).map fun n => -Int.ofNat n
    | digits => (readDigits? digits).map Int.ofNat
  (Value.ofInt? n).map Int64.toInt

namespace Query

/-- A query with something wrong in its last parameter. -/
def rejected (q : Query) (e : Error) : Query × Issues := (q, .fatal e .root)

/-- Reads a number and puts it into the query. -/
def withInteger (q : Query) (value : String) (put : Int → Query) : Query × Issues :=
  match readInteger? (Text.trimBlanks value.toList) with
  | some n => (put n, .empty)
  | none => q.rejected (.badType "integer" "string")

/-- Reads a list of attributes; a list that can not be read counts as none. -/
def withList (ctx : QueryContext) (value : String) (put : Option AttributeList → Query) :
    Query × Issues :=
  match AttributeList.parse ctx.catalog value with
  | .ok l => (put (some l), .empty)
  | .error issues => (put none, issues)

/-- Reads the value of a parameter.  A first index below one counts as one, a negative count as none,
    and no more than the configured number of results is ever wanted. -/
def set (ctx : QueryContext) (q : Query) (p : Parameter) (value : String) : Query × Issues :=
  match p with
  | .attributes => withList ctx value fun l => { q with attributes := l }
  | .excludedAttributes => withList ctx value fun l => { q with excludedAttributes := l }
  | .filter =>
    if !ctx.config.filter.supported then q.rejected (.notSupported "filtering")
    else match Filter.parse ctx.catalog ctx.operators value with
      | .ok f => ({ q with filter := some f }, .empty)
      | .error issues => (q, issues)
  | .sortBy =>
    if !ctx.config.sort.supported then q.rejected (.notSupported "sorting")
    else match Reference.parse ctx.catalog (Text.trim value) with
      | .ok r => ({ q with sortBy := some r }, .empty)
      | .error e => q.rejected e
  | .sortOrder =>
    match SortOrder.parse (Text.trim value) with
    | .ok order => ({ q with sortOrder := order }, .empty)
    | .error e => q.rejected e
  | .startIndex => q.withInteger value fun n => { q with startIndex := (max n 1).toNat }
  | .count => q.withInteger value fun n =>
      { q with count := some (min (max n 0).toNat ctx.config.filter.maxResults) }

/-- Reads one of the parameters given. -/
def readOne (ctx : QueryContext) (state : Query × Issues) (param : String × String) :
    Query × Issues :=
  match Parameter.ofName? param.1 with
  | none => state
  | some p =>
    let (q, issues) := state.1.set ctx p param.2
    (q, state.2.merge issues p.location)

/-- Reads all parameters.  Attributes can not be asked for and excluded at once. -/
def parse (ctx : QueryContext) (params : List (String × String)) : Except Issues Query :=
  let (q, issues) := params.foldl (readOne ctx) ({}, .empty)
  let issues :=
    if q.attributes.isSome && q.excludedAttributes.isSome then
      issues.addError (.cannotBeUsedTogether Parameter.excludedAttributes.text) false
        Parameter.attributes.location
    else issues
  if issues.hasErrors then .error issues else .ok q

/-! ## Answering -/

/-- Which attributes of the resources are wanted. -/
def presence (q : Query) : Presence :=
  match q.attributes, q.excludedAttributes with
  | some l, _ => Presence.response.including l
  | none, some l => Presence.response.excluding l
  | none, none => .response

/-- The page that is wanted. -/
def paginate {α : Type} (q : Query) (items : List α) : List α :=
  let rest := items.drop (q.startIndex - 1)
  match q.count with
  | some n => rest.take n
  | none => rest

/-- How the resources are to be sorted, if at all. -/
def sorter? (q : Query) : Option Sorter := q.sortBy.map fun r => ⟨r, q.sortOrder⟩

end Query

end Scim
