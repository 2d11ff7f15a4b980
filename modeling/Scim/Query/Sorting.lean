import Scim.Attribute.Comparable
import Scim.Record.Access
import Scim.Schema.Resolution
import Scim.Value.Order

/-!
  # Sorting resources

  Resources are sorted by one attribute, and those that agree in it stay in their order.

    * The key of a resource (`Sorter.key?`) is the value of the attribute in the form in which it is
      compared.  Of a list the primary element counts, or else the first; of a complex value its
      sub-attribute `value`, unless another one is named.
    * Resources without a key come last in ascending order, and first in descending order.
-/

namespace Scim

/-! ## Orders -/

/-- The direction of sorting. -/
inductive SortOrder where
  | ascending
  | descending
deriving DecidableEq, Repr

namespace SortOrder

/-- Both of them. -/
def all : List SortOrder := [.ascending, .descending]

/-- The keyword. -/
def text : SortOrder → String
  | .ascending => "ascending"
  | .descending => "descending"

/-- Reads the keyword, up to the case of the letters a to z. -/
def parse (s : String) : Except Error SortOrder :=
  match all.find? fun order => Text.sameAscii order.text.toList s.toList with
  | some order => .ok order
  | none => .error (.mustBeOneOf (all.map text) s)

/-- An ordering, turned around for descending order. -/
def apply : SortOrder → Ordering → Ordering
  | .ascending, o => o
  | .descending, o => o.swap

end SortOrder

/-! ## Keys -/

/-- The element that is marked as primary, or else the first. -/
def Value.primaryOrFirst? (items : List Value) : Option Value :=
  (items.find? fun item =>
    (item.complex?.bind fun fields => Record.get? fields "primary").any fun v =>
      v.boolean? == some true).or items.head?

/-- What resources are sorted by. -/
structure Sorter where
  attr : Reference
  order : SortOrder

namespace Sorter

/-- The sub-attribute that the sorter looks at, if any. -/
def sub? (q : Qualified) (top : Attribute) : Option Name :=
  match q.path.sub with
  | some sub => some sub
  | none => if top.isComplex then some .value else none

/-- What a resource is sorted by. -/
def key? (s : Sorter) (schema : Schema) (data : Record) : Option Value := do
  let q ← schema.resolve? s.attr
  let top ← schema.attribute? q.parent
  let value ← (Record.getAt? data (.ofQualified q.parent) .null).filter Value.isPresent
  let element ← match value with
    | .list items => Value.primaryOrFirst? items
    | value => some value
  let (found, a) ← match sub? q top with
    | none => some (element, top)
    | some sub => do
      let found ← Record.get? (← element.complex?) sub.text
      let a ← (← Attribute.subs? top).find? sub
      some (found, SubAttribute.lift a)
  if found.isPresent then some (a.comparable found) else none

/-- The order of keys; keys of kinds that do not compare count as equal. -/
def compareKeys : Option Value → Option Value → Ordering
  | none, none => .eq
  | none, some _ => .gt
  | some _, none => .lt
  | some a, some b => (a.compare b).getD .eq

/-- Sorts resources of a schema. -/
def sort (s : Sorter) (schema : Schema) (items : List Record) : List Record :=
  let keyed := items.map fun r => (s.key? schema r, r)
  (keyed.mergeSort fun a b => s.order.apply (compareKeys a.1 b.1) != .gt).map (·.2)

end Sorter

end Scim
