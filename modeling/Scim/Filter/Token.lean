import Scim.Filter.Masked
import Scim.Text.Casing

/-!
  # Tokens

  A masked text consists of brackets, round or square, and of words between brackets and blanks.
  Every token knows where it starts, so that a message can quote the text it was read from.

    * `unbalanced?` finds a bracket without its partner;
    * `closeIndex?` finds the bracket that closes another, `splitAtKeyword` cuts at the keywords
      that stand outside all brackets; both count depth only, and rely on the brackets being
      balanced.
-/

namespace Scim

/-- A bracket or a word, with its place in the masked text. -/
inductive Token where
  | opening (bracket : Char) (start : Nat)
  | closing (bracket : Char) (start : Nat)
  | word (chars : List Char) (start : Nat)
deriving DecidableEq, Repr

namespace Token

/-! ## Brackets -/

/-- Whether a character opens a bracket. -/
def isOpening (c : Char) : Bool := c == '(' || c == '['

/-- Whether a character closes a bracket. -/
def isClosing (c : Char) : Bool := c == ')' || c == ']'

/-- The bracket that a closing one needs before it. -/
def partner (c : Char) : Char := if c = ')' then '(' else '['

/-- The first bracket that closes nothing, or else the last one that is not closed.  The brackets
    that are open are on the stack. -/
def unbalanced? (stack : List Char) : List Char → Option Char
  | [] => stack.head?
  | c :: rest =>
    if isOpening c then unbalanced? (c :: stack) rest
    else if isClosing c then
      match stack with
      | top :: stack => if top = partner c then unbalanced? stack rest else some c
      | [] => some c
    else unbalanced? stack rest

/-! ## Reading -/

/-- The pending word as a token, if there is one; `stop` is where it ends. -/
def flush (pending : List Char) (stop : Nat) : List Token :=
  if pending.isEmpty then [] else [.word pending (stop - pending.length)]

/-- The tokens of what follows a pending word, from the place `pos` on. -/
def readFrom (pos : Nat) (pending : List Char) : List Char → List Token
  | [] => flush pending pos
  | c :: rest =>
    if isOpening c then flush pending pos ++ .opening c pos :: readFrom (pos + 1) [] rest
    else if isClosing c then flush pending pos ++ .closing c pos :: readFrom (pos + 1) [] rest
    else if Text.isBlank c then flush pending pos ++ readFrom (pos + 1) [] rest
    else readFrom (pos + 1) (pending ++ [c]) rest

/-- The tokens of a masked text. -/
def readAll (m : Masked) : List Token := readFrom 0 [] m.chars

/-- Where a token starts. -/
def start : Token → Nat
  | .opening _ start | .closing _ start | .word _ start => start

/-- Where a token ends. -/
def stop : Token → Nat
  | .opening _ start | .closing _ start => start + 1
  | .word chars start => start + chars.length

/-- The text that tokens were read from, blanks between them and literals included. -/
def quote (m : Masked) (tokens : List Token) : String :=
  match tokens.head?, tokens.getLast? with
  | some first, some last =>
    m.unmaskText ((m.chars.drop first.start).take (last.stop - first.start))
  | _, _ => ""

/-! ## Structure -/

/-- How many tokens away the bracket is at which the depth returns to zero. -/
def closeOffset? (depth : Nat) : List Token → Option Nat
  | [] => none
  | .opening .. :: rest => (closeOffset? (depth + 1) rest).map (· + 1)
  | .closing .. :: rest =>
    if depth - 1 = 0 then some 0 else (closeOffset? (depth - 1) rest).map (· + 1)
  | .word .. :: rest => (closeOffset? depth rest).map (· + 1)

/-- The index of the bracket that closes the one with an index. -/
def closeIndex? (tokens : List Token) (index : Nat) : Option Nat :=
  (closeOffset? 0 (tokens.drop index)).map (· + index)

/-- Whether the bracket with an index is closed by the last token. -/
def closedByLast (tokens : List Token) (index : Nat) : Bool :=
  closeIndex? tokens index == some (tokens.length - 1)

/-- Whether a token is a keyword, up to the case of the letters a to z. -/
def isKeyword (keyword : List Char) : Token → Bool
  | .word chars _ => Text.sameAscii chars keyword
  | _ => false

/-- The depth after a token. -/
def depthAfter (depth : Nat) : Token → Nat
  | .opening .. => depth + 1
  | .closing .. => depth - 1
  | .word .. => depth

/-- The pieces between the keywords outside all brackets, the first one apart: there is always at
    least one. -/
def splitAtKeyword (keyword : List Char) (depth : Nat) :
    List Token → List Token × List (List Token)
  | [] => ([], [])
  | t :: rest =>
    if depth = 0 ∧ isKeyword keyword t then
      let (first, more) := splitAtKeyword keyword 0 rest
      ([], first :: more)
    else
      let (first, more) := splitAtKeyword keyword (depthAfter depth t) rest
      (t :: first, more)

end Token

end Scim
