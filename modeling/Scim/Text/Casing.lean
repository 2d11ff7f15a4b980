import Scim.Text.CaseData

/-!
  # Letter case

  Two notions of "the same text up to case" are used in this library.

    * Keywords of the filter language, operation kinds and sort orders ignore the case of the
      letters a to z and nothing else (`sameAscii`).
    * Attribute names, schema URIs, operator tokens and the values of case-insensitive attributes
      are compared by their full lower-case form (`lower`): every letter of every alphabet is
      mapped, `İ` becomes two characters, and a capital sigma becomes `ς` at the end of a word and
      `σ` elsewhere.

  The second one looks at the neighbours of a sigma, so `lower` does not commute with appending.
-/

namespace Scim.Text

/-! ## The letters a to z -/

/-- Equality of words up to the case of the letters A to Z. -/
def sameAscii (a b : List Char) : Bool := a.map Char.toLower == b.map Char.toLower

/-! ## All letters -/

/-- Whether a code point lies in one of the inclusive ranges. -/
def inRanges (ranges : List (Nat × Nat)) (c : Char) : Bool :=
  ranges.any fun (first, last) => first ≤ c.toNat && c.toNat ≤ last

/-- Whether the run maps the code point `n`. -/
def LowerRun.covers (r : LowerRun) (n : Nat) : Bool :=
  r.first ≤ n && n ≤ r.last && (n - r.first) % r.step == 0

/-- The lower-case form of one character, its neighbours left aside. -/
def lowerChar (c : Char) : List Char :=
  if c.toNat < 128 then [c.toLower]
  else if c = 'İ' then ['i', '\u0307']
  else match lowerRuns.find? (·.covers c.toNat) with
    | some r => [Char.ofNat (Int.toNat (c.toNat + r.shift))]
    | none => [c]

/-- Whether, looking outward from a sigma, the first character that is not case-ignorable is a
    cased one. -/
def meetsCased (side : List Char) : Bool :=
  match side.dropWhile (inRanges caseIgnorableRuns) with
  | c :: _ => inRanges casedRuns c
  | [] => false

/-- Lower-cases the characters after `before`, which lists what was already read, nearest first.
    A sigma that ends a word, with a letter before it and none after it, is written `ς`. -/
def lowerFrom (before : List Char) : List Char → List Char
  | [] => []
  | c :: rest =>
    (if c = 'Σ' then [if meetsCased before && !meetsCased rest then 'ς' else 'σ']
      else lowerChar c) ++ lowerFrom (c :: before) rest

/-- The full lower-case form of a text. -/
def lower (s : String) : String := String.ofList (lowerFrom [] s.toList)

example : lower "ΣΑΣ Σ" = "σας σ" := by decide +kernel
example : lower "İK\u212A" = "i\u0307kk" := by decide +kernel

end Scim.Text
