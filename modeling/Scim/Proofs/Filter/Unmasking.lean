import Scim.Proofs.Filter.Sources

/-!
  # Putting literals back

  Literals are put back into pieces of a masked text, wherever the pieces were cut off.

    * A piece that is the mask of some text is unmasked to that text, if there is no U+0000 outside
      of its quoted literals (`unquoted`, `unmask_maskFrom`).
    * No piece, whatever it is, is unmasked to a text with a character U+0000, unless the text that
      was masked holds one (`border_not_mem_unmask`).

  Text without quotes is masked to itself (`maskFrom_of_not_mem`), and brackets stay where they are
  (`exists_mem_readFrom`).
-/

namespace Scim

namespace Masked

variable {m : Masked} {n : Nat} {cs chars : List Char} {lits : List (List Char)}

/-- Where there are no quotes there is nothing to mask. -/
theorem maskFrom_of_not_mem (h : '"' ∉ cs) (n : Nat) : maskFrom n cs = (cs, [], none) := by
  induction cs with
  | nil => exact maskFrom_nil n
  | cons c rest ih =>
    simp only [List.mem_cons, not_or] at h
    rw [maskFrom_cons (Ne.symm h.1), ih h.2]

/-- Where there are no borders there is nothing to put back. -/
theorem unmask_of_not_mem (h : border ∉ cs) : m.unmask cs = cs := by
  rw [unmask, Text.splitAt_of_not_mem h, joinPieces, joinPieces, List.append_nil]

/-- What stands outside of the quoted literals of a text. -/
def unquoted (cs : List Char) : List Char :=
  match cs with
  | [] => []
  | c :: rest =>
    if c = '"' then
      match h : Text.closeQuote rest with
      | none => []
      | some (_, after) =>
        have : after.length < rest.length := Text.length_lt_of_closeQuote h
        unquoted after
    else c :: unquoted rest
termination_by cs.length
decreasing_by
  · simp only [List.length_cons]; omega
  · simp

/-- What is no quote stands outside of literals. -/
theorem unquoted_cons {c : Char} (hc : c ≠ '"') (rest : List Char) :
    unquoted (c :: rest) = c :: unquoted rest := by
  rw [unquoted, if_neg hc]

/-- A literal is left out as a whole. -/
theorem unquoted_quoted {rest body after : List Char}
    (h : Text.closeQuote rest = some (body, after)) : unquoted ('"' :: rest) = unquoted after := by
  rw [unquoted, if_pos rfl]
  split
  · rename_i hnone
    rw [h] at hnone
    cases hnone
  · rename_i hsome
    rw [h] at hsome
    obtain ⟨rfl, rfl⟩ := by simpa using hsome
    rfl

/-- What stands outside of literals stands in the text. -/
theorem mem_of_mem_unquoted {c : Char} (h : c ∈ unquoted cs) : c ∈ cs := by
  fun_induction unquoted cs with
  | case1 => exact h
  | case2 => cases h
  | case3 rest body after hclose _ ih =>
    rw [Text.eq_of_closeQuote hclose]
    simp [ih h]
  | case4 d rest hd ih =>
    rcases List.mem_cons.mp h with rfl | h
    · exact List.mem_cons_self
    · exact List.mem_cons_of_mem d (ih h)

/-- What is masked to a piece is what the piece is unmasked to. -/
theorem unmask_maskFrom (hborder : border ∉ unquoted cs)
    (h : maskFrom n cs = (chars, lits, none)) (hm : m.Holds n lits) : m.unmask chars = cs := by
  fun_induction maskFrom n cs generalizing chars lits with
  | case1 n =>
    obtain ⟨rfl, rfl⟩ := by simpa using h
    rfl
  | case2 n rest hclose => simp at h
  | case3 n rest body after hclose _ chars' lits' unclosed heq ih =>
    simp only [Prod.mk.injEq] at h
    obtain ⟨rfl, rfl, rfl⟩ := h
    obtain ⟨hlit, hm⟩ := holds_cons.mp hm
    -- U+0000 may stand in the literal, for the literal is put back as it was
    rw [unquoted_quoted hclose] at hborder
    rw [Text.eq_of_closeQuote hclose, unmask_maskOf_append hlit, ih hborder heq hm]
    simp
  | case4 n c rest hc chars' lits' unclosed heq ih =>
    simp only [Prod.mk.injEq] at h
    obtain ⟨rfl, rfl, rfl⟩ := h
    rw [unquoted_cons hc, List.mem_cons, not_or] at hborder
    rw [unmask_cons m (Ne.symm hborder.1), ih hborder.2 heq hm]

/-! ## No U+0000 comes in -/

/-- What stands in a literal stands in the text. -/
theorem mem_of_mem_literal {lit : List Char} {c : Char} (hlit : lit ∈ (maskFrom n cs).2.1)
    (hc : c ∈ lit) : c ∈ cs := by
  fun_induction maskFrom n cs with
  | case1 => simp at hlit
  | case2 => simp at hlit
  | case3 n rest body after hclose _ chars lits unclosed heq ih =>
    rw [Text.eq_of_closeQuote hclose]
    rcases List.mem_cons.mp hlit with rfl | hlit
    · simp only [List.cons_append, List.mem_cons, List.mem_append, List.not_mem_nil, or_false] at hc ⊢
      rcases hc with rfl | hc | rfl <;> simp [*]
    · rw [heq] at ih
      simp [ih hlit]
  | case4 n c rest hc chars lits unclosed heq ih =>
    rw [heq] at ih
    exact List.mem_cons_of_mem _ (ih hlit)

/-- Nothing is put back but what was put aside, and nothing else holds a border. -/
theorem border_not_mem_unmask {text : List Char} (h : border ∉ text) (cs : List Char) :
    border ∉ (mask text).1.unmask cs := by
  have hliteral : ∀ piece lit, (mask text).1.literalAt? piece = some lit → border ∉ lit := by
    intro piece lit hlit hmem
    obtain ⟨i, -, hi⟩ := Option.bind_eq_some_iff.mp hlit
    exact h (mem_of_mem_literal (List.mem_of_getElem? hi) hmem)
  -- piece by piece, where every second one may be the number of a literal
  have hjoin : ∀ (pieces : List (List Char)) (inside : Bool), (∀ piece ∈ pieces, border ∉ piece) →
      border ∉ (mask text).1.joinPieces inside pieces := by
    intro pieces
    induction pieces with
    | nil =>
      intro inside _
      cases inside <;> exact List.not_mem_nil
    | cons piece rest ih =>
      intro inside hpieces
      have hrest := fun inside => ih inside fun p hp => hpieces p (List.mem_cons_of_mem _ hp)
      have hpiece := hpieces piece List.mem_cons_self
      cases inside with
      | false => exact fun hmem => (List.mem_append.mp hmem).elim hpiece (hrest true)
      | true =>
        refine fun hmem => (List.mem_append.mp hmem).elim ?_ (hrest false)
        cases hlit : (mask text).1.literalAt? piece with
        | none => exact hpiece
        | some lit => exact hliteral piece lit hlit
  exact hjoin _ false fun piece hpiece => Text.not_mem_of_mem_splitAt hpiece

end Masked

/-! ## Brackets -/

namespace Token

/-- Brackets become tokens, wherever they stand. -/
theorem exists_mem_readFrom {cs : List Char} {c : Char}
    (hc : isOpening c = true ∨ isClosing c = true) (h : c ∈ cs) (pos : Nat) (pending : List Char) :
    ∃ i, .opening c i ∈ readFrom pos pending cs ∨ .closing c i ∈ readFrom pos pending cs := by
  induction cs generalizing pos pending with
  | nil => exact absurd h List.not_mem_nil
  | cons d rest ih =>
    unfold readFrom
    rcases List.mem_cons.mp h with rfl | h
    · by_cases ho : isOpening c = true
      · exact ⟨pos, .inl (by simp [ho])⟩
      · exact ⟨pos, .inr (by simp [ho, hc.resolve_left ho])⟩
    · -- what is read before the rest adds tokens only
      have hmore : ∀ (before : List Token) (pos : Nat) (pending : List Char), ∃ i,
          .opening c i ∈ before ++ readFrom pos pending rest ∨
            .closing c i ∈ before ++ readFrom pos pending rest := by
        intro before pos pending
        obtain ⟨i, hi⟩ := ih h pos pending
        exact ⟨i, hi.imp (List.mem_append_right _) (List.mem_append_right _)⟩
      split
      · rw [List.append_cons]
        exact hmore _ (pos + 1) []
      · split
        · rw [List.append_cons]
          exact hmore _ (pos + 1) []
        · split
          · exact hmore (flush pending pos) (pos + 1) []
          · exact hmore [] (pos + 1) (pending ++ [d])

/-- What holds no brackets makes no difference to those before it. -/
theorem unbalanced?_append_left {a b : List Char}
    (h : ∀ c ∈ b, isOpening c = false ∧ isClosing c = false) (stack : List Char) :
    unbalanced? stack (a ++ b) = unbalanced? stack a := by
  induction a generalizing stack with
  | nil =>
    induction b with
    | nil => rfl
    | cons c rest ih =>
      have ⟨ho, hc⟩ := h c List.mem_cons_self
      have hrest := ih fun d hd => h d (List.mem_cons_of_mem c hd)
      simpa [unbalanced?, ho, hc] using hrest
  | cons c rest ih =>
    rw [List.cons_append]
    unfold unbalanced?
    simp only [ih]

/-- Nor does it to those after it. -/
theorem unbalanced?_append_right {a b : List Char}
    (h : ∀ c ∈ a, isOpening c = false ∧ isClosing c = false) (stack : List Char) :
    unbalanced? stack (a ++ b) = unbalanced? stack b := by
  induction a with
  | nil => rfl
  | cons c rest ih =>
    have ⟨ho, hc⟩ := h c List.mem_cons_self
    have hrest := ih fun d hd => h d (List.mem_cons_of_mem c hd)
    simpa [unbalanced?, ho, hc] using hrest

end Token

end Scim
