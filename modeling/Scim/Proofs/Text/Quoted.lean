import Scim.Text.Quoted

/-!
  # Quoted strings read back

  A quoted string is closed by its own closing quote whatever follows it (`closeQuote_append`), and
  what `quoteChars` writes is read as the text that was written (`unquote_quoteChars`).
-/

namespace Scim.Text

/-! ## Closing quotes -/

theorem closeQuote_quote (rest : List Char) : closeQuote ('"' :: rest) = some ([], rest) := by
  rw [closeQuote]

/-- A backslash takes the next character with it. -/
theorem closeQuote_escaped (c : Char) (rest : List Char) :
    closeQuote ('\\' :: c :: rest) =
      (closeQuote rest).map fun (body, after) => ('\\' :: c :: body, after) := by
  rw [closeQuote]

/-- Any other character is passed. -/
theorem closeQuote_plain {c : Char} (hq : c ≠ '"') (hb : c ≠ '\\') (rest : List Char) :
    closeQuote (c :: rest) = (closeQuote rest).map fun (body, after) => (c :: body, after) := by
  rw [closeQuote]
  · exact hq
  · exact fun _ _ h => absurd h hb

/-- Where a string is closed does not depend on what follows it. -/
theorem closeQuote_append {cs body after : List Char} (h : closeQuote cs = some (body, after))
    (more : List Char) : closeQuote (cs ++ more) = some (body, after ++ more) := by
  fun_induction closeQuote cs generalizing body after with
  | case1 => simp at h
  | case2 rest =>
    obtain ⟨rfl, rfl⟩ := by simpa using h
    exact closeQuote_quote _
  | case3 c rest ih =>
    obtain ⟨⟨b, a⟩, hb, he⟩ := Option.map_eq_some_iff.1 h
    simp only [Prod.mk.injEq] at he
    obtain ⟨rfl, rfl⟩ := he
    rw [List.cons_append, List.cons_append, closeQuote_escaped, ih hb]
    rfl
  | case4 c rest hq hb ih =>
    obtain ⟨⟨b, a⟩, hb', he⟩ := Option.map_eq_some_iff.1 h
    simp only [Prod.mk.injEq] at he
    obtain ⟨rfl, rfl⟩ := he
    have hne : rest ≠ [] := by
      rintro rfl
      simp [closeQuote] at hb'
    -- a backslash at the end of all would leave the string open
    have hslash : c ≠ '\\' := by
      rintro rfl
      obtain ⟨d, rest', rfl⟩ := List.exists_cons_of_ne_nil hne
      exact hb d rest' rfl rfl
    rw [List.cons_append, closeQuote_plain (fun h => hq h) hslash, ih hb']
    rfl

/-- A string consists of its body, the closing quote and what follows. -/
theorem eq_of_closeQuote {cs body after : List Char} (h : closeQuote cs = some (body, after)) :
    cs = body ++ '"' :: after := by
  fun_induction closeQuote cs generalizing body after with
  | case1 => simp at h
  | case2 rest =>
    obtain ⟨rfl, rfl⟩ := by simpa using h
    rfl
  | case3 c rest ih =>
    obtain ⟨⟨b, a⟩, hb, he⟩ := Option.map_eq_some_iff.1 h
    simp only [Prod.mk.injEq] at he
    obtain ⟨rfl, rfl⟩ := he
    rw [ih hb]
    rfl
  | case4 c rest _ _ ih =>
    obtain ⟨⟨b, a⟩, hb, he⟩ := Option.map_eq_some_iff.1 h
    simp only [Prod.mk.injEq] at he
    obtain ⟨rfl, rfl⟩ := he
    rw [ih hb]
    rfl

/-- What is between the quotes of a string is closed where the string is. -/
theorem closeQuote_body {rest body after : List Char} (h : closeQuote rest = some (body, after)) :
    closeQuote (body ++ ['"']) = some (body, []) := by
  fun_induction closeQuote rest generalizing body after with
  | case1 => simp at h
  | case2 rest =>
    obtain ⟨rfl, rfl⟩ := by simpa using h
    exact closeQuote_quote []
  | case3 c rest ih =>
    obtain ⟨⟨b, a⟩, hb, he⟩ := Option.map_eq_some_iff.1 h
    obtain ⟨rfl, rfl⟩ := by simpa using he
    rw [List.cons_append, List.cons_append, closeQuote_escaped, ih hb]
    rfl
  | case4 c rest hq hb ih =>
    obtain ⟨⟨b, a⟩, hb', he⟩ := Option.map_eq_some_iff.1 h
    obtain ⟨rfl, rfl⟩ := by simpa using he
    have hslash : c ≠ '\\' := by
      rintro rfl
      cases rest with
      | nil => simp [closeQuote] at hb'
      | cons d rest' => exact hb d rest' rfl rfl
    rw [List.cons_append, closeQuote_plain (fun h => hq h) hslash, ih hb']
    rfl

/-! ## What is written is read -/

/-- How one character stands inside of quotes. -/
theorem escapeChar_cases (c : Char) :
    (∃ e, escapeChar c = ['\\', e] ∧ e ≠ 'u' ∧ shortEscape? e = some c) ∨
      (c.toNat < 0x20 ∧ escapeChar c = '\\' :: 'u' :: hexDigits 4 c.toNat) ∨
      (c ≠ '"' ∧ c ≠ '\\' ∧ ¬ c.toNat < 0x20 ∧ escapeChar c = [c]) := by
  unfold escapeChar
  split
  · exact .inl ⟨_, rfl, by decide, rfl⟩
  · exact .inl ⟨_, rfl, by decide, rfl⟩
  · exact .inl ⟨_, rfl, by decide, rfl⟩
  · exact .inl ⟨_, rfl, by decide, rfl⟩
  · exact .inl ⟨_, rfl, by decide, rfl⟩
  · exact .inl ⟨_, rfl, by decide, rfl⟩
  · exact .inl ⟨_, rfl, by decide, rfl⟩
  · rename_i hq hb _ _ _ _ _
    split
    · exact .inr (.inl ⟨‹_›, rfl⟩)
    · exact .inr (.inr ⟨hq, hb, ‹_›, rfl⟩)

/-- The four digits of a control character, and that they read back. -/
theorem hexDigits_control : ∀ n < 0x20, ∃ a b, hexDigits 4 n = ['0', '0', a, b] ∧
    hexFour? '0' '0' a b = some n ∧ a ≠ '"' ∧ a ≠ '\\' ∧ b ≠ '"' ∧ b ≠ '\\' ∧
    a ≠ '\u0000' ∧ b ≠ '\u0000' := by
  intro n hn
  have h : ∀ n < 0x20, hexDigits 4 n =
      ['0', '0', Nat.digitChar (n / 16), Nat.digitChar (n % 16)] ∧
      hexFour? '0' '0' (Nat.digitChar (n / 16)) (Nat.digitChar (n % 16)) = some n ∧
      Nat.digitChar (n / 16) ≠ '"' ∧ Nat.digitChar (n / 16) ≠ '\\' ∧
      Nat.digitChar (n % 16) ≠ '"' ∧ Nat.digitChar (n % 16) ≠ '\\' ∧
      Nat.digitChar (n / 16) ≠ '\u0000' ∧ Nat.digitChar (n % 16) ≠ '\u0000' := by
    decide +kernel
  exact ⟨_, _, h n hn⟩

/-- A character is read back as it was written. -/
theorem unescape_escapeChar (c : Char) (rest : List Char) :
    unescape (escapeChar c ++ rest) = (unescape rest).map (c :: ·) := by
  rcases escapeChar_cases c with ⟨e, he, hu, hshort⟩ | ⟨hc, he⟩ | ⟨hq, hb, hc, he⟩
  · rw [he, List.cons_append, List.cons_append, List.nil_append, unescape]
    · simp [hshort]
    · exact fun _ _ _ _ _ h => absurd h hu
  · obtain ⟨a, b, hdigits, hfour, -⟩ := hexDigits_control c.toNat hc
    -- a control character is far from the surrogates
    have hhigh : isHighSurrogate c.toNat = false := by
      simp only [isHighSurrogate, Bool.and_eq_false_iff, decide_eq_false_iff_not]
      omega
    have hlow : isLowSurrogate c.toNat = false := by
      simp only [isLowSurrogate, Bool.and_eq_false_iff, decide_eq_false_iff_not]
      omega
    rw [he, hdigits]
    simp only [List.cons_append, List.nil_append]
    rw [unescape, hfour]
    simp [hhigh, hlow]
  · rw [he, List.singleton_append, unescape]
    · simp [hq, hb, hc]
    · exact fun _ _ _ _ _ h => absurd h hb
    · exact fun _ _ h => absurd h hb

/-- What is written for a character does not close the string. -/
theorem closeQuote_escapeChar (c : Char) (rest : List Char) :
    closeQuote (escapeChar c ++ rest) =
      (closeQuote rest).map fun (body, after) => (escapeChar c ++ body, after) := by
  rcases escapeChar_cases c with ⟨e, he, -, -⟩ | ⟨hc, he⟩ | ⟨hq, hb, hc, he⟩
  · rw [he, List.cons_append, List.cons_append, List.nil_append, closeQuote_escaped]
    rfl
  · obtain ⟨a, b, hdigits, -, haq, hab, hbq, hbb, -⟩ := hexDigits_control c.toNat hc
    rw [he, hdigits]
    simp only [List.cons_append, List.nil_append]
    rw [closeQuote_escaped, closeQuote_plain (by decide) (by decide),
      closeQuote_plain (by decide) (by decide), closeQuote_plain haq hab,
      closeQuote_plain hbq hbb]
    simp only [Option.map_map]
    rfl
  · rw [he, List.singleton_append, closeQuote_plain hq hb]
    rfl

/-- A text is read back as it was written. -/
theorem unescape_escape (cs : List Char) : unescape (escape cs) = some cs := by
  induction cs with
  | nil => rw [escape, List.flatMap_nil, unescape]
  | cons c rest ih =>
    rw [escape, List.flatMap_cons, unescape_escapeChar c, ← escape, ih]
    rfl

/-- What is written for a text is closed by the quote behind it. -/
theorem closeQuote_escape (cs after : List Char) :
    closeQuote (escape cs ++ '"' :: after) = some (escape cs, after) := by
  induction cs with
  | nil => exact closeQuote_quote after
  | cons c rest ih =>
    rw [escape, List.flatMap_cons, ← escape, List.append_assoc, closeQuote_escapeChar c, ih]
    rfl

/-- A written text is read as the text that was written. -/
theorem unquote_quoteChars (cs : List Char) : unquote (quoteChars cs) = some (String.ofList cs) := by
  rw [quoteChars, List.cons_append, unquote, closeQuote_escape cs []]
  simp [unescape_escape cs]

/-- No character U+0000 is written. -/
theorem nul_not_mem_escape (cs : List Char) : '\u0000' ∉ escape cs := by
  intro h
  obtain ⟨c, -, h⟩ := List.mem_flatMap.mp h
  rcases escapeChar_cases c with ⟨e, he, -, hshort⟩ | ⟨hc, he⟩ | ⟨-, -, hc, he⟩
  · rw [he] at h
    simp only [List.mem_cons, List.not_mem_nil, or_false] at h
    rcases h with h | rfl
    · exact absurd h (by decide)
    · exact absurd hshort (by simp [shortEscape?])
  · obtain ⟨a, b, hdigits, -, -, -, -, -, ha, hb⟩ := hexDigits_control c.toNat hc
    rw [he, hdigits] at h
    simp only [List.mem_cons, List.not_mem_nil, or_false] at h
    rcases h with h | h | h | h | h | h
    · exact absurd h (by decide)
    · exact absurd h (by decide)
    · exact absurd h (by decide)
    · exact absurd h (by decide)
    · exact ha h.symm
    · exact hb h.symm
  · rw [he, List.mem_singleton] at h
    subst h
    exact hc (by decide)

end Scim.Text
