import Scim.Attribute.Characteristics
import Scim.Filter.Literal
import Scim.Text.Blank
import Scim.Value.Order

/-!
  # Operators

  An operator has a token and a test.  A unary one, such as `pr`, is tested on a value alone; a
  binary one, such as `eq`, on a value and an operand, and it may refuse operands and attribute
  types beforehand.

  The operators in use are a set (`Operators`) in which no token occurs twice, up to full case, and
  none is a keyword or has characters that would break a word.
-/

namespace Scim

/-- An operator applied to a value alone.  A value that is not there is passed as null. -/
structure UnaryOperator where
  token : String
  evaluate : Value → Bool

/-- An operator that compares a value with a literal. -/
structure BinaryOperator where
  token : String
  evaluate : Value → Value → Bool
  /-- Whether a literal can be an operand at all. -/
  supportsOperand : Literal → Bool := fun _ => true
  /-- Whether attributes of a type can be compared. -/
  supportsAttribute : AttributeType → Bool := fun _ => true

/-- What operators are found by. -/
def UnaryOperator.key (op : UnaryOperator) : String := Text.lower op.token

/-- What operators are found by. -/
def BinaryOperator.key (op : BinaryOperator) : String := Text.lower op.token

/-! ## The operators of the protocol -/

/-- Whether a text occurs within another. -/
def occursIn (part : List Char) : List Char → Bool
  | [] => part.isEmpty
  | c :: rest => part.isPrefixOf (c :: rest) || occursIn part rest

namespace UnaryOperator

/-- Whether there is a value. -/
def present : UnaryOperator := ⟨"pr", Value.isPresent⟩

/-- All unary operators of the protocol. -/
def standard : List UnaryOperator := [present]

end UnaryOperator

namespace BinaryOperator

/-- Whether two values are comparable and equal. -/
def equal : BinaryOperator :=
  { token := "eq", evaluate := fun value operand => value.compare operand == some .eq }

/-- Whether two values are not equal, or not comparable. -/
def notEqual : BinaryOperator :=
  { token := "ne", evaluate := fun value operand => value.compare operand != some .eq }

/-- A test on two texts; other values fail it. -/
def onTexts (token : String) (test : List Char → List Char → Bool) : BinaryOperator where
  token := token
  evaluate value operand :=
    match value, operand with
    | .string value, .string operand => test value.toList operand.toList
    | _, _ => false
  supportsOperand literal :=
    match literal with
    | .string _ => true
    | _ => false
  supportsAttribute type :=
    match type with
    | .string | .reference | .binary => true
    | _ => false

/-- Whether the operand occurs in the value. -/
def contains : BinaryOperator := onTexts "co" fun value operand => occursIn operand value

/-- Whether the value starts with the operand. -/
def startsWith : BinaryOperator := onTexts "sw" fun value operand => operand.isPrefixOf value

/-- Whether the value ends with the operand. -/
def endsWith : BinaryOperator := onTexts "ew" fun value operand => operand.isSuffixOf value

/-- A test on the order of two values; null and truth values fail it. -/
def onOrder (token : String) (test : Ordering → Bool) : BinaryOperator where
  token := token
  evaluate value operand :=
    match value with
    | .null | .boolean _ => false
    | value => (value.compare operand).any test
  supportsOperand literal :=
    match literal with
    | .boolean _ | .null => false
    | _ => true
  supportsAttribute type :=
    match type with
    | .boolean | .binary | .complex => false
    | _ => true

/-- All binary operators of the protocol. -/
def standard : List BinaryOperator :=
  [ equal, notEqual, contains, startsWith, endsWith,
    onOrder "gt" Ordering.isGT, onOrder "ge" Ordering.isGE,
    onOrder "lt" Ordering.isLT, onOrder "le" Ordering.isLE ]

end BinaryOperator

/-! ## Sets of operators -/

/-- The operators that filters may use. -/
structure Operators where
  unary : List UnaryOperator
  binary : List BinaryOperator

namespace Operators

/-- No operators. -/
def empty : Operators := ⟨[], []⟩

/-- The operators of the protocol. -/
def standard : Operators := ⟨UnaryOperator.standard, BinaryOperator.standard⟩

/-- The words that no operator may be written as. -/
def keywords : List String := ["and", "or", "not"]

/-- The unary operator with a token. -/
def unary? (ops : Operators) (token : String) : Option UnaryOperator :=
  ops.unary.find? (·.key == Text.lower token)

/-- The binary operator with a token. -/
def binary? (ops : Operators) (token : String) : Option BinaryOperator :=
  ops.binary.find? (·.key == Text.lower token)

/-- Whether a token is that of an operator. -/
def contains (ops : Operators) (token : String) : Bool :=
  (ops.unary? token).isSome || (ops.binary? token).isSome

/-- Whether a character would break a word. -/
def breaksWord (c : Char) : Bool :=
  Text.isBlank c || c == '(' || c == ')' || c == '[' || c == ']' || c == '"'

/-- What is wrong with the token of a further operator. -/
def tokenError? (ops : Operators) (token : String) : Option BuildError :=
  let key := Text.lower token
  if key.toList.isEmpty || key.toList.any breaksWord then some (.invalidName token)
  else if keywords.contains key || ops.contains key then some (.duplicateOperator token)
  else none

/-- Adds a unary operator. -/
def addUnary (ops : Operators) (op : UnaryOperator) : Except BuildError Operators :=
  match ops.tokenError? op.token with
  | some e => .error e
  | none => .ok { ops with unary := ops.unary ++ [op] }

/-- Adds a binary operator. -/
def addBinary (ops : Operators) (op : BinaryOperator) : Except BuildError Operators :=
  match ops.tokenError? op.token with
  | some e => .error e
  | none => .ok { ops with binary := ops.binary ++ [op] }

/-- Adds the operators of the protocol. -/
def addStandard (ops : Operators) : Except BuildError Operators := do
  let ops ← UnaryOperator.standard.foldlM addUnary ops
  BinaryOperator.standard.foldlM addBinary ops

end Operators

end Scim
