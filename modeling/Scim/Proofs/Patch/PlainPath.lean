import Scim.Proofs.Filter.Canonical
import Scim.Proofs.Filter.Unmasking

/-!
  # Paths without a selection

  A path without a selection is a reference.  Its schema may come back in another casing, and a URI
  may hold quotes and round brackets, so it has to be shown that casing has no part in where quotes
  and brackets stand.  It is, by an automaton that is blind to it (`isPlainPath_of_lower_eq`) and
  that accepts just the texts whose masked form holds no square bracket and leaves nothing open
  (`isPlainPath_iff_mask`).
-/

namespace Scim

/-- Where the reader of a path without a selection stands, and how many round brackets are open. -/
inductive PlainState where
  | outside (depth : Nat)
  /-- Inside of quotes. -/
  | inside (depth : Nat)
  /-- After a backslash inside of quotes. -/
  | escaped (depth : Nat)
  /-- After a bracket that may not stand there. -/
  | broken
deriving DecidableEq

namespace PlainState

/-- One character further. -/
def step : PlainState → Char → PlainState
  | .outside depth, c =>
    if c = '"' then .inside depth
    else if c = '(' then .outside (depth + 1)
    else if c = ')' then if depth = 0 then .broken else .outside (depth - 1)
    else if c = '[' ∨ c = ']' then .broken
    else .outside depth
  | .inside depth, c =>
    if c = '"' then .outside depth else if c = '\\' then .escaped depth else .inside depth
  | .escaped depth, _ => .inside depth
  | .broken, _ => .broken

/-- After a bracket that may not stand there, it stays so. -/
theorem foldl_broken (cs : List Char) : cs.foldl step .broken = .broken := by
  induction cs with
  | nil => rfl
  | cons c rest ih => exact ih

/-- Inside of quotes the reader looks for the closing one. -/
theorem foldl_inside (depth : Nat) {cs body after : List Char}
    (h : Text.closeQuote cs = some (body, after)) :
    cs.foldl step (.inside depth) = after.foldl step (.outside depth) := by
  fun_induction Text.closeQuote cs generalizing body after with
  | case1 => simp at h
  | case2 rest =>
    obtain ⟨rfl, rfl⟩ := by simpa using h
    rfl
  | case3 c rest ih =>
    obtain ⟨⟨b, a⟩, hb, he⟩ := Option.map_eq_some_iff.1 h
    simp only [Prod.mk.injEq] at he
    obtain ⟨rfl, rfl⟩ := he
    exact ih hb
  | case4 c rest hq hb ih =>
    obtain ⟨⟨b, a⟩, hb', he⟩ := Option.map_eq_some_iff.1 h
    simp only [Prod.mk.injEq] at he
    obtain ⟨rfl, rfl⟩ := he
    have hslash : c ≠ '\\' := by
      rintro rfl
      cases rest with
      | nil => simp [Text.closeQuote] at hb'
      | cons d rest' => exact hb d rest' rfl rfl
    rw [List.foldl_cons, step, if_neg (fun h => hq h), if_neg hslash, ih hb']

/-- Without a closing one it never comes out of them. -/
theorem foldl_inside_unclosed (depth : Nat) {cs : List Char} (h : Text.closeQuote cs = none) :
    cs.foldl step (.inside depth) = .inside depth ∨
      cs.foldl step (.inside depth) = .escaped depth := by
  fun_induction Text.closeQuote cs with
  | case1 => exact .inl rfl
  | case2 => simp at h
  | case3 c rest ih => exact ih (Option.map_eq_none_iff.mp h)
  | case4 c rest hq hb ih =>
    by_cases hslash : c = '\\'
    · -- a backslash is only read on its own at the end
      cases rest with
      | nil => exact .inr (by rw [hslash]; rfl)
      | cons d rest' => exact absurd rfl (hb d rest' hslash)
    · rw [List.foldl_cons, step, if_neg (fun h => hq h), if_neg hslash]
      exact ih (Option.map_eq_none_iff.mp h)

/-- A character that stands for itself leads neither in nor out of anything. -/
theorem step_eq_outside {c : Char} (hc : isPlain c = true) (state : PlainState) :
    state.step c = .outside 0 ↔ state = .outside 0 := by
  have hne : ∀ d : Char, isPlain d = false → c ≠ d := by
    rintro d hd rfl
    rw [hc] at hd
    exact absurd hd (by decide)
  have hquote := hne '"' (by decide)
  cases state with
  | outside depth =>
    rw [step, if_neg hquote, if_neg (hne '(' (by decide)), if_neg (hne ')' (by decide)),
      if_neg (not_or.mpr ⟨hne '[' (by decide), hne ']' (by decide)⟩)]
  | inside depth =>
    rw [step, if_neg hquote]
    split <;> simp
  | escaped depth => simp [step]
  | broken => rfl

end PlainState

/-- Whether a text may be a path without a selection: its quotes are closed, outside of them are no
    square brackets, and the round ones match. -/
def isPlainPath (cs : List Char) : Prop := cs.foldl PlainState.step (.outside 0) = .outside 0

/-- Casing makes no difference. -/
theorem isPlainPath_of_lower_eq {a b : String} (h : Text.lower a = Text.lower b)
    (ha : isPlainPath a.toList) : isPlainPath b.toList := by
  have hne : ∀ {c d : Char}, Text.caseless c = false → Text.caseless d = true → c ≠ d := by
    rintro c d hc hd rfl
    rw [hc] at hd
    exact absurd hd (by decide)
  -- a character with a case is no quote, no bracket and no backslash
  have hstep : ∀ (s : PlainState) (c : Char), Text.caseless c = false → s.step c =
      match s with
      | .outside depth => .outside depth
      | .inside depth | .escaped depth => .inside depth
      | .broken => .broken := by
    intro s c hc
    cases s <;> simp [PlainState.step, hne hc (d := '"') (by decide +kernel),
      hne hc (d := '(') (by decide +kernel), hne hc (d := ')') (by decide +kernel),
      hne hc (d := '[') (by decide +kernel), hne hc (d := ']') (by decide +kernel),
      hne hc (d := '\\') (by decide +kernel)]
  unfold isPlainPath at ha ⊢
  refine (Text.foldl_eq_of_lower_eq PlainState.step ?_ ?_ h (.outside 0)).symm.trans ha
  · intro s c d hc hd
    rw [hstep s c hc, hstep s d hd]
  · intro s c d hc hd
    rw [hstep _ d hd, hstep s c hc]
    cases s <;> rfl

/-- Nor do plain characters at the end. -/
theorem isPlainPath_append {a b : List Char} (h : ∀ c ∈ b, isPlain c = true) :
    isPlainPath (a ++ b) ↔ isPlainPath a := by
  unfold isPlainPath
  rw [List.foldl_append]
  generalize a.foldl PlainState.step (.outside 0) = state
  induction b generalizing state with
  | nil => rfl
  | cons c rest ih =>
    rw [List.foldl_cons, ih (fun d hd => h d (List.mem_cons_of_mem c hd)),
      PlainState.step_eq_outside (h c List.mem_cons_self)]

/-! ## The masked text -/

/-- A character of a word is no bracket. -/
theorem not_bracket_of_isUnbroken {c : Char} (h : Masked.isUnbroken c = true) :
    Token.isOpening c = false ∧ Token.isClosing c = false := by
  simp only [Masked.isUnbroken, Bool.and_eq_true, Bool.not_eq_true'] at h
  exact ⟨h.1.1, h.1.2⟩

/-- The automaton counts the brackets that are on the stack of the check. -/
theorem foldl_step_iff (n depth : Nat) (cs : List Char) :
    cs.foldl PlainState.step (.outside depth) = .outside 0 ↔
      (Masked.maskFrom n cs).2.2 = none ∧
        Token.unbalanced? (List.replicate depth '(') (Masked.maskFrom n cs).1 = none ∧
        '[' ∉ (Masked.maskFrom n cs).1 := by
  fun_induction Masked.maskFrom n cs generalizing depth with
  -- at the end all brackets must be closed
  | case1 n =>
    cases depth <;> simp [Token.unbalanced?, List.replicate_succ]
  -- a quote that is not closed
  | case2 n rest hclose =>
    have hinside : ('"' :: rest).foldl PlainState.step (.outside depth) ≠ .outside 0 := by
      show rest.foldl PlainState.step (.inside depth) ≠ .outside 0
      rcases PlainState.foldl_inside_unclosed depth hclose with h | h <;> simp [h]
    exact iff_of_false hinside (by simp)
  | case3 n rest body after hclose _ chars lits unclosed heq ih =>
    rw [heq] at ih
    have hinside : ('"' :: rest).foldl PlainState.step (.outside depth) =
        after.foldl PlainState.step (.outside depth) := PlainState.foldl_inside depth hclose
    -- a mask holds no brackets
    have hmask : ∀ c ∈ Masked.maskOf n, Token.isOpening c = false ∧ Token.isClosing c = false :=
      fun c hc => not_bracket_of_isUnbroken (Masked.isUnbroken_of_mem_maskOf c hc)
    have hsquare : '[' ∉ Masked.maskOf n := fun h => absurd (hmask _ h).1 (by decide)
    rw [hinside, ih, Token.unbalanced?_append_right hmask]
    simp [hsquare]
  | case4 n c rest hc chars lits unclosed heq ih =>
    rw [heq] at ih
    rw [List.foldl_cons, PlainState.step, if_neg hc]
    show _ ↔ unclosed = none ∧ Token.unbalanced? (List.replicate depth '(') (c :: chars) = none ∧
      '[' ∉ c :: chars
    -- a bracket of one of the kinds, or another character
    by_cases hopen : c = '('
    · subst hopen
      rw [if_pos rfl, ih]
      simp [Token.unbalanced?, Token.isOpening, List.replicate_succ]
    · by_cases hclose : c = ')'
      · subst hclose
        rw [if_neg hopen, if_pos rfl]
        cases depth with
        | zero => simp [PlainState.foldl_broken, Token.unbalanced?, Token.isOpening, Token.isClosing]
        | succ depth =>
          rw [if_neg (by simp), Nat.add_sub_cancel, ih]
          simp [Token.unbalanced?, Token.isOpening, Token.isClosing, List.replicate_succ,
            Token.partner]
      · rw [if_neg hopen, if_neg hclose]
        by_cases hsquare : c = '[' ∨ c = ']'
        · -- one that closes a square bracket finds round ones open only
          rw [if_pos hsquare, PlainState.foldl_broken]
          refine iff_of_false (by simp) ?_
          rintro ⟨-, hnone, hmem⟩
          rcases hsquare with rfl | rfl
          · exact hmem List.mem_cons_self
          · cases depth <;>
              simp [Token.unbalanced?, Token.isOpening, Token.isClosing, List.replicate_succ,
                Token.partner] at hnone
        · rw [if_neg hsquare, ih]
          obtain ⟨hleft, hright⟩ := not_or.mp hsquare
          simp [Token.unbalanced?, Token.isOpening, Token.isClosing, hopen, hclose, hleft, hright,
            Ne.symm hleft]

/-- A text may be such a path just if its literals are closed, its brackets match, and none that is
    square stands outside of literals. -/
theorem isPlainPath_iff_mask (cs : List Char) :
    isPlainPath cs ↔ (Masked.mask cs).2 = none ∧
      Token.unbalanced? [] (Masked.mask cs).1.chars = none ∧ '[' ∉ (Masked.mask cs).1.chars :=
  foldl_step_iff 0 0 cs

/-! ## References -/

namespace Reference

variable {catalog : Catalog} {s : String} {r : Reference}

/-- The text of a reference is a path without a selection, if the text it was read from is one. -/
theorem isPlainPath_text (h : parse catalog s = .ok r) (hs : isPlainPath s.toList) :
    isPlainPath r.text.toList := by
  cases r with
  | plain p =>
    rw [← parse_eq_ok_plain.mp h] at hs
    exact hs
  | qualified q =>
    obtain ⟨uri, hsource, hlookup⟩ := parse_eq_ok_qualified.mp h
    have hplain : ∀ c ∈ ':' :: q.path.text.toList, isPlain c = true := by
      intro c hc
      rcases List.mem_cons.mp hc with rfl | hc
      · decide
      · exact isPlain_of_mem_path c hc
    rw [hsource, isPlainPath_append hplain] at hs
    rw [toList_text_qualified, isPlainPath_append hplain]
    -- the schema may change its casing
    refine isPlainPath_of_lower_eq (Catalog.lookup_text hlookup).1.symm ?_
    rwa [String.toList_ofList]

end Reference

end Scim
