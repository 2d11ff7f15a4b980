/-!
  # Quoted strings

  Texts between double quotes, as JSON writes them.

    * `quote` writes a text: the quote, the backslash and the control characters below U+0020 are
      escaped, all else stands as it is;
    * `closeQuote` finds where a quoted string ends, without looking at what its escapes mean;
    * `unescape` reads what stands between the quotes: it knows all escapes, joins surrogate pairs,
      and refuses raw control characters and surrogates that stand alone.
-/

namespace Scim.Text

/-! ## Hexadecimal digits -/

/-- The hexadecimal digits of a number, at least `width` of them, a to f in lower case. -/
def hexDigits (width n : Nat) : List Char :=
  let digits := Nat.toDigits 16 n
  List.replicate (width - digits.length) '0' ++ digits

/-- The value of a hexadecimal digit of either case. -/
def hexValue? (c : Char) : Option Nat :=
  if '0' ≤ c ∧ c ≤ '9' then some (c.toNat - '0'.toNat)
  else if 'a' ≤ c ∧ c ≤ 'f' then some (c.toNat - 'a'.toNat + 10)
  else if 'A' ≤ c ∧ c ≤ 'F' then some (c.toNat - 'A'.toNat + 10)
  else none

/-- The value of four hexadecimal digits. -/
def hexFour? (a b c d : Char) : Option Nat := do
  return (((← hexValue? a) * 16 + (← hexValue? b)) * 16 + (← hexValue? c)) * 16 + (← hexValue? d)

/-! ## Writing -/

/-- How one character stands inside quotes. -/
def escapeChar (c : Char) : List Char :=
  match c with
  | '"' => ['\\', '"']
  | '\\' => ['\\', '\\']
  | '\u0008' => ['\\', 'b']
  | '\u000c' => ['\\', 'f']
  | '\n' => ['\\', 'n']
  | '\r' => ['\\', 'r']
  | '\t' => ['\\', 't']
  | c => if c.toNat < 0x20 then '\\' :: 'u' :: hexDigits 4 c.toNat else [c]

/-- What stands between the quotes of a written text. -/
def escape (cs : List Char) : List Char := cs.flatMap escapeChar

/-- A text with its quotes. -/
def quoteChars (cs : List Char) : List Char := '"' :: escape cs ++ ['"']

/-- A text with its quotes. -/
def quote (s : String) : String := String.ofList (quoteChars s.toList)

/-! ## Reading -/

/-- Splits what follows an opening quote at the closing one.  A backslash takes the next character
    with it, so an escaped quote closes nothing. -/
def closeQuote : List Char → Option (List Char × List Char)
  | [] => none
  | '"' :: rest => some ([], rest)
  | '\\' :: c :: rest => (closeQuote rest).map fun (body, after) => ('\\' :: c :: body, after)
  | c :: rest => (closeQuote rest).map fun (body, after) => (c :: body, after)

/-- What follows the closing quote is shorter. -/
theorem length_lt_of_closeQuote {cs body after : List Char}
    (h : closeQuote cs = some (body, after)) : after.length < cs.length := by
  fun_induction closeQuote cs generalizing body after with
  | case1 => simp at h
  | case2 rest => simp at h; simp [← h.2]
  | case3 c rest ih =>
    obtain ⟨⟨b, a⟩, hb, he⟩ := Option.map_eq_some_iff.1 h
    have := ih hb
    simp at he
    simp [← he.2]; omega
  | case4 c rest _ _ ih =>
    obtain ⟨⟨b, a⟩, hb, he⟩ := Option.map_eq_some_iff.1 h
    have := ih hb
    simp at he
    simp [← he.2]; omega

/-- The character that a backslash and the letter `c` stand for. -/
def shortEscape? (c : Char) : Option Char :=
  match c with
  | '"' => some '"'
  | '\\' => some '\\'
  | '/' => some '/'
  | 'b' => some '\u0008'
  | 'f' => some '\u000c'
  | 'n' => some '\n'
  | 'r' => some '\r'
  | 't' => some '\t'
  | _ => none

/-- The first half of a surrogate pair. -/
def isHighSurrogate (n : Nat) : Bool := 0xD800 ≤ n && n ≤ 0xDBFF

/-- The second half of a surrogate pair. -/
def isLowSurrogate (n : Nat) : Bool := 0xDC00 ≤ n && n ≤ 0xDFFF

/-- The text that stands between two quotes as `body`. -/
def unescape : List Char → Option (List Char)
  | [] => some []
  | '\\' :: 'u' :: a :: b :: c :: d :: rest =>
    match hexFour? a b c d with
    | none => none
    | some n =>
      if isHighSurrogate n then
        match rest with
        | '\\' :: 'u' :: e :: f :: g :: h :: rest =>
          match hexFour? e f g h with
          | none => none
          | some m =>
            if isLowSurrogate m then
              (unescape rest).map (Char.ofNat (0x10000 + (n - 0xD800) * 0x400 + (m - 0xDC00)) :: ·)
            else none
        | _ => none
      else if isLowSurrogate n then none
      else (unescape rest).map (Char.ofNat n :: ·)
  | '\\' :: e :: rest =>
    match shortEscape? e with
    | some c => (unescape rest).map (c :: ·)
    | none => none
  | c :: rest =>
    if c = '"' ∨ c = '\\' ∨ c.toNat < 0x20 then none else (unescape rest).map (c :: ·)

/-- The text of a quoted string, its quotes included in `cs`. -/
def unquote (cs : List Char) : Option String :=
  match cs with
  | '"' :: rest =>
    match closeQuote rest with
    | some (body, []) => (unescape body).map String.ofList
    | _ => none
  | _ => none

example : unquote (quoteChars ['a', '"', '\n', '\u001f', 'é']) = some "a\"\n\u001fé" := by
  decide +kernel
example : unquote ['"', '\\', 'u', 'd', '8', '0', '0', '"'] = none := by decide +kernel

end Scim.Text
