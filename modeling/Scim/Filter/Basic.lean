import Scim.Filter.Operator
import Scim.Reference

/-!
  # Filters

  A filter is a tree of comparisons.  It carries its operators with it, so it can be evaluated
  without a set of operators; two filters are the same when they have the same shape and the same
  references, operator tokens and literals.

  `Filter.text` is the canonical form: single blanks, keywords and operators in lower case,
  strings escaped as JSON escapes them, and brackets where there is a group and nowhere else.
-/

namespace Scim

/-- What is asked of an attribute. -/
inductive Comparison where
  | unary (op : UnaryOperator)
  | binary (op : BinaryOperator) (operand : Literal)

namespace Comparison

/-- The token of the operator, in lower case. -/
def token : Comparison → String
  | .unary op => op.key
  | .binary op _ => op.key

/-- The operand of a binary operator. -/
def operand? : Comparison → Option Literal
  | .unary _ => none
  | .binary _ operand => some operand

/-- Whether the operator is a unary one. -/
def isUnary : Comparison → Bool
  | .unary _ => true
  | .binary .. => false

/-- Equality of operands. -/
def sameOperand : Option Literal → Option Literal → Bool
  | none, none => true
  | some a, some b => a.same b
  | _, _ => false

/-- Equality of tokens and operands. -/
def same (a b : Comparison) : Bool := a.token == b.token && sameOperand a.operand? b.operand?

end Comparison

/-- A comparison of an attribute. -/
structure AttributeFilter where
  attr : Reference
  comparison : Comparison

namespace AttributeFilter

/-- Writes a comparison. -/
def text (f : AttributeFilter) : String :=
  let head := f.attr.text ++ " " ++ f.comparison.token
  match f.comparison.operand? with
  | some operand => head ++ " " ++ operand.text
  | none => head

/-- Equality of references and comparisons. -/
def same (f g : AttributeFilter) : Bool := f.attr.same g.attr && f.comparison.same g.comparison

end AttributeFilter

/-- A filter. -/
inductive Filter where
  | and (left right : Filter)
  | or (left right : Filter)
  | not (inner : Filter)
  /-- A filter in round brackets. -/
  | group (inner : Filter)
  | leaf (f : AttributeFilter)
  /-- A filter on the elements of an attribute, in square brackets. -/
  | complex (attr : Reference) (inner : Filter)

namespace Filter

/-- Writes a filter in its canonical form. -/
def text : Filter → String
  | .and left right => left.text ++ " and " ++ right.text
  | .or left right => left.text ++ " or " ++ right.text
  | .not inner => "not " ++ inner.text
  | .group inner => "(" ++ inner.text ++ ")"
  | .leaf f => f.text
  | .complex attr inner => attr.text ++ "[" ++ inner.text ++ "]"

/-- Equality of filters. -/
def same : Filter → Filter → Bool
  | .and l r, .and l' r' => l.same l' && r.same r'
  | .or l r, .or l' r' => l.same l' && r.same r'
  | .not f, .not g => f.same g
  | .group f, .group g => f.same g
  | .leaf f, .leaf g => f.same g
  | .complex a f, .complex b g => a.same b && f.same g
  | _, _ => false

/-- All comparisons, from left to right.  Those inside square brackets speak of sub-attributes. -/
def leaves : Filter → List AttributeFilter
  | .and left right | .or left right => left.leaves ++ right.leaves
  | .not inner | .group inner | .complex _ inner => inner.leaves
  | .leaf f => [f]

end Filter

end Scim
