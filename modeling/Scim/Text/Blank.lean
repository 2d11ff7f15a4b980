/-!
  # Blank characters

  The characters with the Unicode property *White_Space* separate the words of a filter, are cut
  off around query parameters, and may not occur in a URI.  U+200B and U+FEFF are not among them.

  Beside the property stand the two cuts that texts are taken apart with: `trim` drops the blanks at
  both ends, `splitAt` cuts at every occurrence of one character.
-/

namespace Scim.Text

/-- The Unicode property *White_Space*. -/
def isBlank (c : Char) : Bool :=
  let n := c.toNat
  (0x09 ≤ n && n ≤ 0x0D) || n == 0x20 || n == 0x85 || n == 0xA0 || n == 0x1680 ||
    (0x2000 ≤ n && n ≤ 0x200A) || n == 0x2028 || n == 0x2029 || n == 0x202F || n == 0x205F ||
    n == 0x3000

/-- Drops the blanks at both ends. -/
def trimBlanks (cs : List Char) : List Char :=
  ((cs.dropWhile isBlank).reverse.dropWhile isBlank).reverse

/-- Drops the blanks at both ends of a text. -/
def trim (s : String) : String := String.ofList (trimBlanks s.toList)

/-- The pieces of a text between the occurrences of `sep`: one more than there are occurrences. -/
def splitAt (sep : Char) : List Char → List (List Char)
  | [] => [[]]
  | c :: rest =>
    if c = sep then [] :: splitAt sep rest
    else match splitAt sep rest with
      | piece :: pieces => (c :: piece) :: pieces
      | [] => [[c]]

theorem splitAt_ne_nil (sep : Char) (cs : List Char) : splitAt sep cs ≠ [] := by
  cases cs with
  | nil => simp [splitAt]
  | cons c rest =>
    unfold splitAt
    split
    · simp
    · split <;> simp

end Scim.Text
