/-!
  # Base64

  Binary attribute values are texts over the standard alphabet in groups of four characters, the
  last of which may end in one or two padding signs.  A padded group carries fewer bits than its
  characters could hold; the bits left over must be zero, so that every value has one text.
-/

namespace Scim.Base64

/-- The six bits a character of the alphabet stands for. -/
def sextet? (c : Char) : Option Nat :=
  if 'A' ≤ c ∧ c ≤ 'Z' then some (c.toNat - 'A'.toNat)
  else if 'a' ≤ c ∧ c ≤ 'z' then some (c.toNat - 'a'.toNat + 26)
  else if '0' ≤ c ∧ c ≤ '9' then some (c.toNat - '0'.toNat + 52)
  else if c = '+' then some 62
  else if c = '/' then some 63
  else none

/-- Whether a character stands for six bits of which the last `spare` are zero. -/
def endsWithZeros (spare : Nat) (c : Char) : Bool :=
  match sextet? c with
  | some n => n % (1 <<< spare) == 0
  | none => false

/-- Whether the characters are the base64 text of some bytes. -/
def isValidChars : List Char → Bool
  | [] => true
  | [a, b, '=', '='] => (sextet? a).isSome && endsWithZeros 4 b
  | [a, b, c, '='] => (sextet? a).isSome && (sextet? b).isSome && endsWithZeros 2 c
  | a :: b :: c :: d :: rest =>
    (sextet? a).isSome && (sextet? b).isSome && (sextet? c).isSome && (sextet? d).isSome &&
      isValidChars rest
  | _ => false

/-- Whether a text is the base64 text of some bytes. -/
def isValid (s : String) : Bool := isValidChars s.toList

example : isValid "aGVsbG8=" = true := by decide +kernel
example : isValid "aGVsbG9=" = false := by decide +kernel

end Scim.Base64
