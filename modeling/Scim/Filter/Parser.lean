import Scim.Filter.Basic
import Scim.Filter.Token
import Scim.Issues.Basic

/-!
  # Reading filters

  A filter is a chain of parts joined by `or`, each of them a chain of terms joined by `and`; both
  chains are joined from the left.  A term is negated by `not`, is a filter in round brackets, a
  filter on the elements of an attribute in square brackets, or a comparison.

  The chains are cut at their keywords before any part is read, so a mistake in one part never hides
  those of the others: reading gives a filter, or the list of all mistakes in the order of the text
  (`Reading`).

  Only terms contain filters in their turn, and they are shorter than the term; `readTerm` counts
  the levels down from the number of tokens.
-/

namespace Scim

/-- What was read, or all that is wrong with it. -/
abbrev Reading (α : Type) := Except (List Error) α

namespace Reading

variable {α β γ : Type}

/-- What is wrong. -/
def errors : Reading α → List Error
  | .error errors => errors
  | .ok _ => []

/-- Joins two readings; what is wrong with either is wrong with both. -/
def both (join : α → β → γ) (a : Reading α) (b : Reading β) : Reading γ :=
  match a, b with
  | .ok x, .ok y => .ok (join x y)
  | a, b => .error (a.errors ++ b.errors)

/-- A single mistake. -/
def fail (e : Error) : Reading α := .error [e]

end Reading

/-- What reading depends on beside the tokens: the text, the schemas and the operators known. -/
structure FilterContext where
  masked : Masked
  catalog : Catalog
  operators : Operators

namespace FilterContext

/-! ## Comparisons -/

/-- Quotes the text that tokens were read from. -/
def quote (ctx : FilterContext) (tokens : List Token) : String := Token.quote ctx.masked tokens

/-- Reads an attribute.  In square brackets it must be the plain name of a sub-attribute. -/
def readAttr (ctx : FilterContext) (word : List Char) (tokens : List Token)
    (scope : Option Reference) : Reading Reference :=
  match Reference.parse ctx.catalog (ctx.masked.unmaskText word) with
  | .error e => .fail e
  | .ok attr =>
    match scope with
    | none => .ok attr
    | some parent =>
      if attr.isSub || attr.schema?.isSome then
        .fail (.complexSubAttribute parent.text (ctx.quote tokens))
      else .ok attr

/-- Reads the operator of a comparison without operand. -/
def readUnary (ctx : FilterContext) (word : List Char) (tokens : List Token) :
    Reading Comparison :=
  let token := String.ofList word
  match ctx.operators.unary? token with
  | some op => .ok (.unary op)
  | none =>
    if (ctx.operators.binary? token).isSome then
      .fail (.missingOperand (Text.lower token) (ctx.quote tokens))
    else .fail (.unknownOperator "unary" (ctx.masked.unmaskText word) (ctx.quote tokens))

/-- Reads an operand: a quoted string, or a JSON constant or number. -/
def readLiteral (ctx : FilterContext) (word : List Char) : Reading Literal :=
  let found := match ctx.masked.literal? word with
    | some quoted => Literal.ofQuoted? quoted
    | none => Literal.ofWord? word
  match found with
  | some literal => .ok literal
  | none => .fail (.badOperand (ctx.masked.unmaskText word))

/-- Reads operator and operand of a comparison. -/
def readBinary (ctx : FilterContext) (word operand : List Char) (tokens : List Token) :
    Reading Comparison :=
  let token := String.ofList word
  match ctx.operators.binary? token with
  | none =>
    if (ctx.operators.unary? token).isSome then .fail (.unknownExpression (ctx.quote tokens))
    else .fail (.unknownOperator "binary" (ctx.masked.unmaskText word) (ctx.quote tokens))
  | some op =>
    match ctx.readLiteral operand with
    | .error es => .error es
    | .ok literal =>
      if op.supportsOperand literal then .ok (.binary op literal)
      else .fail (.incompatibleOperand op.key literal.typeName)

/-- The comparison of an attribute. -/
def leaf (attr : Reference) (comparison : Comparison) : Filter := .leaf ⟨attr, comparison⟩

/-! ## Chains -/

/-- Reads parts one after the other.  Of the empty ones the first is reported, as `missing`. -/
def readParts (readPart : List Token → Reading Filter) (missing : Error) (reported : Bool) :
    List (List Token) → Reading (List Filter)
  | [] => .ok []
  | part :: rest =>
    if part.isEmpty then
      .error ((if reported then [] else [missing]) ++
        (readParts readPart missing true rest).errors)
    else .both List.cons (readPart part) (readParts readPart missing reported rest)

/-- Reads the parts between keywords and joins them from the left. -/
def readChain (ctx : FilterContext) (keyword : String) (join : Filter → Filter → Filter)
    (readPart : List Token → Reading Filter) (tokens : List Token) : Reading Filter :=
  let missing := Error.missingOperand keyword (ctx.quote tokens)
  let (first, more) := Token.splitAtKeyword keyword.toList 0 tokens
  match readParts readPart missing false (first :: more) with
  | .error es => .error es
  | .ok (filter :: filters) => .ok (filters.foldl join filter)
  | .ok [] => .fail missing

/-- Reads a filter whose terms are read by `readTerm`. -/
def readFilterWith (ctx : FilterContext) (readTerm : List Token → Reading Filter)
    (tokens : List Token) : Reading Filter :=
  ctx.readChain "or" .or (ctx.readChain "and" .and readTerm) tokens

/-! ## Terms -/

/-- The tokens between the one with an index and the last. -/
def between (tokens : List Token) (index : Nat) : List Token :=
  (tokens.drop (index + 1)).dropLast

/-- Reads a filter on the elements of an attribute.  There are no such filters inside of others, and
    none on the elements of a sub-attribute. -/
def readComplex (ctx : FilterContext) (readInner : Reference → List Token → Reading Filter)
    (word : List Char) (tokens : List Token) (scope : Option Reference) : Reading Filter :=
  match scope with
  | some parent => .fail (.complexSubAttribute parent.text (ctx.quote tokens))
  | none =>
    match ctx.readAttr word tokens none with
    | .error es => .error es
    | .ok attr =>
      let inner := between tokens 1
      if attr.isSub then .fail (.complexSubAttribute attr.text (ctx.quote tokens))
      else if inner.isEmpty then .fail .emptyExpression
      else (readInner attr inner).map (.complex attr)

/-- Reads a term, at most `levels` filters deep. -/
def readTerm (ctx : FilterContext) : (levels : Nat) → Option Reference → List Token → Reading Filter
  | 0, _, tokens => .fail (.unknownExpression (ctx.quote tokens))
  | levels + 1, scope, tokens =>
    let unknown := Error.unknownExpression (ctx.quote tokens)
    match tokens with
    | .opening '(' _ :: _ =>
      if Token.closedByLast tokens 0 then
        let inner := between tokens 0
        if inner.isEmpty then .fail .emptyExpression
        else (ctx.readFilterWith (readTerm ctx levels scope) inner).map .group
      else .fail unknown
    | .word word start :: rest =>
      if Token.isKeyword ['n', 'o', 't'] (.word word start) then
        if rest.isEmpty then .fail (.missingOperand "not" (ctx.quote tokens))
        else (readTerm ctx levels scope rest).map .not
      else match rest with
        | .opening '[' _ :: _ =>
          if Token.closedByLast tokens 1 then
            ctx.readComplex
              (fun attr => ctx.readFilterWith (readTerm ctx levels (some attr)))
              word tokens scope
          else .fail unknown
        | [.word operator _] =>
          .both leaf (ctx.readAttr word tokens scope) (ctx.readUnary operator tokens)
        | [.word operator _, .word operand _] =>
          .both leaf (ctx.readAttr word tokens scope) (ctx.readBinary operator operand tokens)
        | _ => .fail unknown
    | _ => .fail unknown

/-- Reads a filter. -/
def readFilter (ctx : FilterContext) (tokens : List Token) : Reading Filter :=
  ctx.readFilterWith (ctx.readTerm tokens.length none) tokens

end FilterContext

/-! ## Filters -/

/-- Reads a filter from the characters of a text.  Brackets that do not match are reported before a
    literal that is not closed. -/
def Filter.read (catalog : Catalog) (operators : Operators) (input : List Char) :
    Reading Filter :=
  let (masked, unclosed) := Masked.mask input
  match Token.unbalanced? [] masked.chars with
  | some bracket => .fail (.unbalancedBracket bracket (String.ofList input))
  | none =>
    match unclosed with
    | some literal => .fail (.badOperand (String.ofList literal))
    | none =>
      match Token.readAll masked with
      | [] => .fail .emptyExpression
      | tokens => FilterContext.readFilter ⟨masked, catalog, operators⟩ tokens

/-- Reads a filter. -/
def Filter.parse (catalog : Catalog) (operators : Operators) (input : String) :
    Except Issues Filter :=
  (Filter.read catalog operators input.toList).mapError Issues.ofErrors

end Scim
