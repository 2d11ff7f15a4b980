import Scim.Decimal.Shortest
import Scim.Text.Quoted

/-!
  # JSON values

  The plain data that resources, schemas and error reports are exchanged as.

    * A number written without fraction and exponent, between -2^63 and 2^64 - 1, is an `integer`;
      every other number is a `decimal`.  The two never mix: `1` and `1.0` are different values.
    * The members of an object have no order of their own.  They are kept sorted by key, with one
      member per key (`ofMembers`, where a later member replaces an earlier one), so that equal
      objects are equal lists.
-/

namespace Scim

/-- A JSON value. -/
inductive Json where
  | null
  | bool (b : Bool)
  | integer (n : Int)
  | decimal (d : Decimal)
  | string (s : String)
  | array (items : List Json)
  | object (members : List (String × Json))
deriving Repr

namespace Json

instance : Inhabited Json := ⟨.null⟩

/-! ## Objects -/

/-- Puts a member at its place among sorted ones; a member with the same key is replaced. -/
def insertMember {α : Type} (key : String) (value : α) : List (String × α) → List (String × α)
  | [] => [(key, value)]
  | (k, v) :: rest =>
    if key = k then (key, value) :: rest
    else if key < k then (key, value) :: (k, v) :: rest
    else (k, v) :: insertMember key value rest

/-- Members in the order of their keys, one per key, the last one of those given. -/
def sortMembers {α : Type} (members : List (String × α)) : List (String × α) :=
  members.foldl (fun sorted (key, value) => insertMember key value sorted) []

/-- The object with the given members. -/
def ofMembers (members : List (String × Json)) : Json := .object (sortMembers members)

/-- The value of a member; `none` for anything but an object that has it. -/
def member? (key : String) : Json → Option Json
  | .object members => members.lookup key
  | _ => none

/-- A decimal as JSON knows it: JSON has no infinities and no NaN. -/
def ofDecimal (d : Decimal) : Json := if d.isFinite then .decimal d else .null

/-- A list of texts. -/
def ofStrings (texts : List String) : Json := .array (texts.map .string)

/-! ## Writing -/

mutual

/-- The text of a value, without blanks. -/
def render : Json → List Char
  | .null => ['n', 'u', 'l', 'l']
  | .bool true => ['t', 'r', 'u', 'e']
  | .bool false => ['f', 'a', 'l', 's', 'e']
  | .integer n => (toString n).toList
  | .decimal d => d.text
  | .string s => Text.quoteChars s.toList
  | .array items => '[' :: renderItems items ++ [']']
  | .object members => Char.ofNat 0x7B :: renderMembers members ++ [Char.ofNat 0x7D]

/-- The texts of the items, separated by commas. -/
def renderItems : List Json → List Char
  | [] => []
  | [item] => render item
  | item :: rest => render item ++ ',' :: renderItems rest

/-- The texts of the members, separated by commas. -/
def renderMembers : List (String × Json) → List Char
  | [] => []
  | [(key, value)] => Text.quoteChars key.toList ++ ':' :: render value
  | (key, value) :: rest =>
    Text.quoteChars key.toList ++ ':' :: render value ++ ',' :: renderMembers rest

end

/-- The text of a value. -/
def text (j : Json) : String := String.ofList j.render

end Json

end Scim
