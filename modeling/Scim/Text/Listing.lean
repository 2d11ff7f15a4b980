import Scim.Text.Casing
import Scim.Text.UnprintableData
import Scim.Text.Quoted

/-!
  # Lists of texts inside messages

  A message that names the allowed values lists them between square brackets, each between double
  quotes, separated by a comma and a blank.  Nothing invisible gets into a message: characters
  without a shape of their own are written by their code point.
-/

namespace Scim.Text

/-- Whether a character would not show, or would change the character before it.  Below U+007F only
    the controls are so, and no table is searched. -/
def isUnprintable (c : Char) : Bool :=
  if c.toNat < 0x7F then c.toNat < 0x20 else inRanges unprintableRuns c

/-- No run is empty, and none reaches into the next one. -/
example : unprintableRuns.all (fun (first, last) => first ≤ last) &&
    (unprintableRuns.zip unprintableRuns.tail).all (fun (r, s) => r.2 < s.1) := by decide +kernel
/-- The table begins with the controls: it agrees with the rule below U+007F. -/
example : unprintableRuns.take 2 = [(0, 0x1F), (0x7F, 0xA0)] := by decide +kernel

/-- How one character is listed. -/
def listedChar (c : Char) : List Char :=
  match c with
  | '"' => ['\\', '"']
  | '\\' => ['\\', '\\']
  | '\n' => ['\\', 'n']
  | '\r' => ['\\', 'r']
  | '\t' => ['\\', 't']
  | '\u0000' => ['\\', '0']
  | c =>
    if isUnprintable c then
      ['\\', 'u', Char.ofNat 0x7B] ++ Nat.toDigits 16 c.toNat ++ [Char.ofNat 0x7D]
    else [c]

/-- One text between quotes. -/
def listed (s : String) : List Char := '"' :: s.toList.flatMap listedChar ++ ['"']

/-- The texts in order, between square brackets. -/
def listing (texts : List String) : String :=
  String.ofList ('[' :: [',', ' '].intercalate (texts.map listed) ++ [']'])

example : listing [] = "[]" := by decide +kernel
example : listing ["ÿ\u2003", "\u3164", "e\u0301", "ｶﾞ"] =
    "[\"ÿ\\u\x7b2003\x7d\", \"\\u\x7b3164\x7d\", \"e\\u\x7b301\x7d\", \"ｶﾞ\"]" := by
  decide +kernel
example : listing ["a", "b\"c\u0000"] = "[\"a\", \"b\\\"c\\0\"]" := by decide +kernel

end Scim.Text
