import Scim.Error
import Scim.Json.Basic
import Scim.Value.Basic

/-!
  # Values as plain JSON

  JSON has no date-times, no key order and no case-insensitive keys.  Reading (`Value.ofJson`)
  inserts the members of an object one after the other, so that of two keys that differ in case only
  the later one wins, at the place of the earlier.  Writing (`Value.toJson`) turns date-times into
  their text and decimals that are no numbers into null.
-/

namespace Scim

/-- An integer that 64 bits hold. -/
def Value.ofInt? (n : Int) : Option Int64 :=
  if Int64.minValue.toInt ≤ n ∧ n ≤ Int64.maxValue.toInt then some (Int64.ofInt n) else none

/-- A whole JSON number; one beyond 64 bits becomes a decimal. -/
def Value.ofInt (n : Int) : Value :=
  match Value.ofInt? n with
  | some i => .integer i
  | none => .decimal (Decimal.ofInt n)

mutual

/-- Reads a value. -/
def Value.ofJson : Json → Value
  | .null => .null
  | .bool b => .boolean b
  | .integer n => Value.ofInt n
  | .decimal d => .decimal d
  | .string s => .string s
  | .array items => .list (Value.ofJsonItems items)
  | .object members => .complex (Record.ofMembersFrom [] members)

/-- Reads the items of a list. -/
def Value.ofJsonItems : List Json → List Value
  | [] => []
  | item :: rest => Value.ofJson item :: Value.ofJsonItems rest

/-- Inserts members into a record, one after the other. -/
def Record.ofMembersFrom (r : List (String × Value)) :
    List (String × Json) → List (String × Value)
  | [] => r
  | (key, value) :: rest => Record.ofMembersFrom (Record.insert r key (Value.ofJson value)) rest

end

mutual

/-- Writes a value. -/
def Value.toJson : Value → Json
  | .null => .null
  | .boolean b => .bool b
  | .integer n => .integer n.toInt
  | .decimal d => Json.ofDecimal d
  | .string s => .string s
  | .dateTime t => .string t.render
  | .complex fields => Json.ofMembers (Record.toMembers fields)
  | .list items => .array (Value.toJsonItems items)

/-- Writes the items of a list. -/
def Value.toJsonItems : List Value → List Json
  | [] => []
  | item :: rest => item.toJson :: Value.toJsonItems rest

/-- Writes the entries of a record. -/
def Record.toMembers : List (String × Value) → List (String × Json)
  | [] => []
  | (key, value) :: rest => (key, value.toJson) :: Record.toMembers rest

end

/-- The record that a value is; no other value will do for a resource. -/
def Record.ofValue (v : Value) : Except Error Record :=
  match v with
  | .complex fields => .ok fields
  | other => .error (.badType "complex" other.typeName)

/-- A record as a JSON object. -/
def Record.toJson (r : Record) : Json := Json.ofMembers (Record.toMembers r)

end Scim
