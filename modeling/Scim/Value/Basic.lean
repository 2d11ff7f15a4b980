import Scim.DateTime
import Scim.Decimal.Basic
import Scim.Text.Casing

/-!
  # Attribute values and records

  A resource is a record: values under keys, in the order in which the keys were first used.  Keys
  keep the casing they were last written in, and are found up to case, by their full lower-case
  form.  A value is a scalar, a record in its turn (a complex value) or a list of values.

  The operations on records work on the first entry whose key fits.  A record built by `insert` and
  `erase` never holds two keys that differ in case only (`Distinct`), and then it is the only one.
-/

namespace Scim

/-- A value of a resource. -/
inductive Value where
  | null
  | boolean (b : Bool)
  | integer (n : Int64)
  | decimal (d : Decimal)
  | string (s : String)
  | dateTime (t : DateTime)
  | complex (fields : List (String × Value))
  | list (items : List Value)
deriving Repr

instance : Inhabited Value := ⟨.null⟩

/-- Values under keys. -/
abbrev Record := List (String × Value)

namespace Value

/-- The name of a value's type in messages. -/
def typeName : Value → String
  | .null => "null"
  | .boolean _ => "boolean"
  | .integer _ => "integer"
  | .decimal _ => "decimal"
  | .string _ => "string"
  | .dateTime _ => "dateTime"
  | .complex _ => "complex"
  | .list _ => "list"

/-- Whether the value is null. -/
def isNull : Value → Bool
  | .null => true
  | _ => false

/-- Whether there is a value at all: null, the empty text, the empty list and the empty record are
    none. -/
def isPresent : Value → Bool
  | .null => false
  | .string s => s != ""
  | .list items => !items.isEmpty
  | .complex fields => !fields.isEmpty
  | _ => true

/-- The text of a string value. -/
def string? : Value → Option String
  | .string s => some s
  | _ => none

/-- The truth value of a boolean value. -/
def boolean? : Value → Option Bool
  | .boolean b => some b
  | _ => none

/-- The number of an integer value. -/
def integer? : Value → Option Int64
  | .integer n => some n
  | _ => none

/-- A numeric value as a decimal; an integer is rounded to the nearest one. -/
def decimal? : Value → Option Decimal
  | .integer n => some (Decimal.ofInt n.toInt)
  | .decimal d => some d
  | _ => none

/-- The moment of a date-time value. -/
def dateTime? : Value → Option DateTime
  | .dateTime t => some t
  | _ => none

/-- The fields of a complex value. -/
def complex? : Value → Option Record
  | .complex fields => some fields
  | _ => none

/-- The items of a list value. -/
def list? : Value → Option (List Value)
  | .list items => some items
  | _ => none

end Value

namespace Record

/-- Whether two keys are the same up to case. -/
def sameKey (a b : String) : Bool := Text.lower a == Text.lower b

/-- The value under a key. -/
def get? (r : Record) (key : String) : Option Value :=
  match r with
  | [] => none
  | (k, v) :: rest => if sameKey k key then some v else get? rest key

/-- The value under a key, null if there is none. -/
def getD (r : Record) (key : String) : Value := (get? r key).getD .null

/-- Puts a value under a key: in the place of the entry that has the key, and with the new casing,
    or else at the end. -/
def insert (r : Record) (key : String) (value : Value) : Record :=
  match r with
  | [] => [(key, value)]
  | (k, v) :: rest => if sameKey k key then (key, value) :: rest else (k, v) :: insert rest key value

/-- Changes the value under a key; place and casing stay. -/
def update (r : Record) (key : String) (value : Value) : Record :=
  match r with
  | [] => []
  | (k, v) :: rest => if sameKey k key then (k, value) :: rest else (k, v) :: update rest key value

/-- Removes the entry with a key. -/
def erase (r : Record) (key : String) : Record :=
  match r with
  | [] => []
  | (k, v) :: rest => if sameKey k key then rest else (k, v) :: erase rest key

/-- The record with one entry. -/
def single (key : String) (value : Value) : Record := [(key, value)]

/-- The keys in order. -/
def keys (r : Record) : List String := r.map (·.1)

/-- No two keys differ in case only. -/
def Distinct (r : Record) : Prop := (r.map fun e => Text.lower e.1).Nodup

end Record

end Scim
