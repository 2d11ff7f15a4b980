import Scim.Json.Number
import Scim.Value.Plain

/-!
  # Literals

  The operand of a comparison is a JSON string, number, truth value or null.  A decimal keeps the
  text it was written as, and is written back unchanged.
-/

namespace Scim

/-- The operand of a comparison. -/
inductive Literal where
  | string (s : String)
  | boolean (b : Bool)
  | null
  | integer (n : Int64)
  | decimal (value : Decimal) (written : String)
deriving DecidableEq, Repr

namespace Literal

/-- The name of a literal's type in messages. -/
def typeName : Literal → String
  | .string _ => "string"
  | .boolean _ => "boolean"
  | .null => "null"
  | .integer _ => "integer"
  | .decimal .. => "decimal"

/-- The value that a literal stands for. -/
def toValue : Literal → Value
  | .string s => .string s
  | .boolean b => .boolean b
  | .null => .null
  | .integer n => .integer n
  | .decimal value _ => .decimal value

/-- Writes a literal. -/
def text : Literal → String
  | .string s => Text.quote s
  | .boolean true => "true"
  | .boolean false => "false"
  | .null => "null"
  | .integer n => toString n.toInt
  | .decimal _ written => written

/-- Equality of literals; decimals must agree in value and in writing. -/
def same : Literal → Literal → Bool
  | .string a, .string b => a == b
  | .boolean a, .boolean b => a == b
  | .null, .null => true
  | .integer a, .integer b => a == b
  | .decimal a r, .decimal b s => a.same b && r == s
  | _, _ => false

/-- Reads a word that is a JSON constant or number. -/
def ofWord? (word : List Char) : Option Literal :=
  match Json.scalar? word with
  | some (.bool b) => some (.boolean b)
  | some .null => some .null
  | some (.integer n) =>
    match Value.ofInt? n with
    | some i => some (.integer i)
    | none => some (.decimal (Decimal.ofInt n) (String.ofList word))
  | some (.decimal d) => some (.decimal d (String.ofList word))
  | _ => none

/-- Reads a quoted string. -/
def ofQuoted? (quoted : List Char) : Option Literal := (Text.unquote quoted).map .string

end Literal

end Scim
