import Scim.Json.Number

/-!
  # JSON texts

  A JSON text is read in two steps.  `Written.parse?` sees its shape only: members in the order
  written, repeated keys kept, strings and numbers as their characters.  `Written.value?` gives the
  shape its meaning, which can fail: a string may hold half a surrogate pair, a number may be too
  large.  A reader that is not interested in some member never asks for its value.
-/

namespace Scim.Json

/-- A JSON text taken apart. -/
inductive Written where
  | constant (value : Json)
  | number (numeral : Numeral)
  /-- What stands between the quotes. -/
  | string (body : List Char)
  | array (items : List Written)
  | object (members : List (List Char × Written))

/-! ## Reading -/

/-- The four characters that may stand between the parts of a JSON text. -/
def isSpace (c : Char) : Bool := c == ' ' || c == '\t' || c == '\n' || c == '\r'

/-- Drops the spaces in front. -/
def skipSpace (cs : List Char) : List Char := cs.dropWhile isSpace

/-- Whether the escapes between two quotes are well formed and no control character stands raw. -/
def wellEscaped : List Char → Bool
  | [] => true
  | '\\' :: 'u' :: a :: b :: c :: d :: rest => (Text.hexFour? a b c d).isSome && wellEscaped rest
  | '\\' :: e :: rest => (Text.shortEscape? e).isSome && wellEscaped rest
  | '\\' :: [] => false
  | c :: rest => 0x20 ≤ c.toNat && wellEscaped rest

/-- The string whose opening quote was read. -/
def readString? (cs : List Char) : Option (List Char × List Char) :=
  match Text.closeQuote cs with
  | some (body, rest) => if wellEscaped body then some (body, rest) else none
  | none => none

/-- The constants. -/
def constants : List (List Char × Json) :=
  [("null".toList, .null), ("true".toList, .bool true), ("false".toList, .bool false)]

/-- The constant at the start of a text. -/
def readConstant? (cs : List Char) : Option (Json × List Char) :=
  constants.findSome? fun (word, value) =>
    if word.isPrefixOf cs then some (value, cs.drop word.length) else none

mutual

/-- The value at the start of a text.  Every call uses up one unit of `fuel`; two units for each
    character are enough. -/
def readWritten? : Nat → List Char → Option (Written × List Char)
  | 0, _ => none
  | fuel + 1, cs =>
    match skipSpace cs with
    | '"' :: rest => (readString? rest).map fun (body, rest) => (.string body, rest)
    | '[' :: rest =>
      match skipSpace rest with
      | ']' :: rest => some (.array [], rest)
      | _ => (readItems? fuel rest).map fun (items, rest) => (.array items, rest)
    | '\x7b' :: rest =>
      match skipSpace rest with
      | '\x7d' :: rest => some (.object [], rest)
      | _ => (readMembers? fuel rest).map fun (members, rest) => (.object members, rest)
    | cs =>
      match readConstant? cs with
      | some (value, rest) => some (.constant value, rest)
      | none => (Numeral.read? cs).map fun (n, rest) => (.number n, rest)

/-- The items of an array up to its closing bracket, at least one. -/
def readItems? : Nat → List Char → Option (List Written × List Char)
  | 0, _ => none
  | fuel + 1, cs =>
    match readWritten? fuel cs with
    | none => none
    | some (item, rest) =>
      match skipSpace rest with
      | ',' :: rest => (readItems? fuel rest).map fun (items, rest) => (item :: items, rest)
      | ']' :: rest => some ([item], rest)
      | _ => none

/-- The members of an object up to its closing brace, at least one. -/
def readMembers? : Nat → List Char → Option (List (List Char × Written) × List Char)
  | 0, _ => none
  | fuel + 1, cs =>
    match skipSpace cs with
    | '"' :: rest =>
      match readString? rest with
      | none => none
      | some (key, rest) =>
        match skipSpace rest with
        | ':' :: rest =>
          match readWritten? fuel rest with
          | none => none
          | some (value, rest) =>
            match skipSpace rest with
            | ',' :: rest =>
              (readMembers? fuel rest).map fun (members, rest) => ((key, value) :: members, rest)
            | '\x7d' :: rest => some ([(key, value)], rest)
            | _ => none
        | _ => none
    | _ => none

end

/-- The shape of a whole text. -/
def Written.parse? (cs : List Char) : Option Written :=
  match readWritten? (2 * cs.length + 2) cs with
  | some (written, rest) => if (skipSpace rest).isEmpty then some written else none
  | none => none

/-! ## Meaning -/

mutual

/-- The value of a text. -/
def Written.value? : Written → Option Json
  | .constant value => some value
  | .number n => n.value?
  | .string body => (Text.unescape body).map fun cs => .string (String.ofList cs)
  | .array items => (itemValues? items).map .array
  | .object members => (memberValues? members).map ofMembers

/-- The values of all items. -/
def itemValues? : List Written → Option (List Json)
  | [] => some []
  | item :: rest => do return (← item.value?) :: (← itemValues? rest)

/-- The values of all members. -/
def memberValues? : List (List Char × Written) → Option (List (String × Json))
  | [] => some []
  | (key, value) :: rest => do
    return (String.ofList (← Text.unescape key), ← value.value?) :: (← memberValues? rest)

end

end Scim.Json
