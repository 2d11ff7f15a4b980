import Scim.Text.Blank
import Scim.Text.Quoted

/-!
  # Texts with their quoted literals masked

  Brackets, blanks and keywords inside a quoted literal mean nothing.  So before a filter or path is
  taken apart, every quoted literal is put aside, and a numbered mask, its index between two
  characters U+0000, stands in its place.

    * `mask` puts the literals aside; a literal that is never closed is given back on its own;
    * `unmask` puts literals back into any piece of the masked text;
    * `Masked.literal?` is the literal that a word consists of.

  A number with a plus sign or with leading zeros is an index too.
-/

namespace Scim

/-- A text without its quoted literals, and the literals, quotes included. -/
structure Masked where
  chars : List Char
  literals : List (List Char)
deriving DecidableEq, Repr

namespace Masked

/-- The character that encloses the number of a mask. -/
def border : Char := '\u0000'

/-- What stands in the place of the literal with an index. -/
def maskOf (index : Nat) : List Char := border :: Nat.toDigits 10 index ++ [border]

/-- Masks the literals of a text, `count` literals having been put aside before it.  Gives the
    masked text, its literals, and the beginning of a literal that is never closed. -/
def maskFrom (count : Nat) (cs : List Char) : List Char × List (List Char) × Option (List Char) :=
  match cs with
  | [] => ([], [], none)
  | c :: rest =>
    if c = '"' then
      match h : Text.closeQuote rest with
      | none => ([], [], some ('"' :: rest))
      | some (body, after) =>
        have : after.length < rest.length := Text.length_lt_of_closeQuote h
        let (chars, literals, unclosed) := maskFrom (count + 1) after
        (maskOf count ++ chars, ('"' :: body ++ ['"']) :: literals, unclosed)
    else
      let (chars, literals, unclosed) := maskFrom count rest
      (c :: chars, literals, unclosed)
termination_by cs.length
decreasing_by
  · simp only [List.length_cons]; omega
  · simp

/-- Masks the literals of a text. -/
def mask (cs : List Char) : Masked × Option (List Char) :=
  let (chars, literals, unclosed) := maskFrom 0 cs
  (⟨chars, literals⟩, unclosed)

/-! ## Putting literals back -/

/-- Reads an index: digits, and perhaps a plus sign before them. -/
def index? (cs : List Char) : Option Nat :=
  let digits := match cs with
    | '+' :: rest => rest
    | _ => cs
  if digits.isEmpty || !digits.all Char.isDigit then none
  else some (digits.foldl (fun n c => 10 * n + (c.toNat - '0'.toNat)) 0)

/-- The literal with the number that some characters write. -/
def literalAt? (m : Masked) (number : List Char) : Option (List Char) :=
  (index? number).bind fun i => m.literals[i]?

/-- The literal that a word stands for as a whole. -/
def literal? (m : Masked) (word : List Char) : Option (List Char) :=
  match word with
  | c :: rest =>
    if c = border && rest.getLast? == some border then m.literalAt? rest.dropLast else none
  | [] => none

/-- Joins the pieces between borders; every other piece is the number of a mask. -/
def joinPieces (m : Masked) : (inside : Bool) → List (List Char) → List Char
  | _, [] => []
  | true, piece :: rest => (m.literalAt? piece).getD piece ++ joinPieces m false rest
  | false, piece :: rest => piece ++ joinPieces m true rest

/-- Puts the literals back into a piece of the masked text. -/
def unmask (m : Masked) (cs : List Char) : List Char :=
  m.joinPieces false (Text.splitAt border cs)

/-- Puts the literals back into a piece of the masked text. -/
def unmaskText (m : Masked) (cs : List Char) : String := String.ofList (m.unmask cs)

end Masked

end Scim
