import Scim.Error
import Scim.Text.Casing

/-!
  # Attribute names

  An attribute name is `$ref`, or starts with a letter a to z of either case and goes on with
  letters, digits, `_`, `-` and `$`.  It keeps the casing it was written in; two names are the same
  when their lower-case forms (`key`) are equal.
-/

namespace Scim

namespace Name

/-- The letters a to z of either case. -/
def isLetter (c : Char) : Bool := ('a' ≤ c && c ≤ 'z') || ('A' ≤ c && c ≤ 'Z')

/-- What a name may go on with. -/
def isNameChar (c : Char) : Bool :=
  isLetter c || ('0' ≤ c && c ≤ '9') || c == '_' || c == '-' || c == '$'

/-- Whether characters form a name. -/
def isValidChars (cs : List Char) : Bool :=
  match cs with
  | [] => false
  | c :: rest => cs == ['$', 'r', 'e', 'f'] || (isLetter c && rest.all isNameChar)

/-- Whether a text is a name. -/
def isValid (s : String) : Bool := isValidChars s.toList

end Name

/-- An attribute name. -/
structure Name where
  text : String
  valid : Name.isValid text = true
deriving DecidableEq, Repr

namespace Name

/-- The text as a name. -/
def parse (s : String) : Except Error Name :=
  if h : isValid s = true then .ok ⟨s, h⟩ else .error (.badAttributeName s)

/-- The text as a name, `none` if it is not one. -/
def parse? (s : String) : Option Name := (parse s).toOption

/-- What names are compared by. -/
def key (n : Name) : String := Text.lower n.text

/-- Whether two names are the same up to case. -/
def same (a b : Name) : Bool := a.key == b.key

/-- Whether a text is the name up to case. -/
def matchesText (n : Name) (s : String) : Bool := n.key == Text.lower s

/-- The sub-attribute that holds the value proper of a complex element. -/
def value : Name := ⟨"value", by decide +kernel⟩

/-- The sub-attribute that marks the preferred element of a list. -/
def primary : Name := ⟨"primary", by decide +kernel⟩

end Name

end Scim
