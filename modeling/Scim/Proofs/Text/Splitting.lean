import Scim.Text.Blank

/-!
  # Texts cut at a character

  `splitAt` gives one piece for a text without the separator (`splitAt_of_not_mem`), and cuts at each
  one that there is (`splitAt_append`); the pieces are what stood between them (`eq_of_splitAt`), so
  none of them holds a separator (`not_mem_of_mem_splitAt`).  They are the pieces of `List.splitOn`
  (`splitAt_eq_splitOn`).
-/

namespace Scim.Text

/-- A character that is no separator belongs to the first piece. -/
theorem splitAt_cons_of_ne {sep c : Char} (hc : c ≠ sep) (cs : List Char) :
    ∃ piece pieces, splitAt sep cs = piece :: pieces ∧
      splitAt sep (c :: cs) = (c :: piece) :: pieces := by
  obtain ⟨piece, pieces, h⟩ := List.exists_cons_of_ne_nil (splitAt_ne_nil sep cs)
  refine ⟨piece, pieces, h, ?_⟩
  rw [splitAt, if_neg hc, h]

/-- A text without separators is one piece. -/
theorem splitAt_of_not_mem {sep : Char} {cs : List Char} (h : sep ∉ cs) : splitAt sep cs = [cs] := by
  -- no character is a separator, so each joins the one piece that there is
  induction cs with
  | nil => rfl
  | cons c rest ih =>
    simp only [List.mem_cons, not_or] at h
    rw [splitAt, if_neg (Ne.symm h.1), ih h.2]

/-- The first separator ends the first piece. -/
theorem splitAt_append {sep : Char} {part : List Char} (h : sep ∉ part) (cs : List Char) :
    splitAt sep (part ++ sep :: cs) = part :: splitAt sep cs := by
  induction part with
  | nil => rw [List.nil_append, splitAt, if_pos rfl]
  | cons c part ih =>
    simp only [List.mem_cons, not_or] at h
    rw [List.cons_append, splitAt, if_neg (Ne.symm h.1), ih h.2]

/-- The first piece ends before the first separator. -/
theorem eq_of_splitAt {sep : Char} {cs piece : List Char} {pieces : List (List Char)}
    (h : splitAt sep cs = piece :: pieces) :
    (cs = piece ∧ pieces = []) ∨ ∃ rest, cs = piece ++ sep :: rest ∧ splitAt sep rest = pieces := by
  -- the first piece grows by one character as long as no separator comes
  induction cs generalizing piece with
  | nil =>
    rw [splitAt, List.cons.injEq] at h
    obtain ⟨rfl, rfl⟩ := h
    exact .inl ⟨rfl, rfl⟩
  | cons c rest ih =>
    rw [splitAt] at h
    by_cases hc : c = sep
    · rw [if_pos hc, List.cons.injEq] at h
      obtain ⟨rfl, rfl⟩ := h
      exact .inr ⟨rest, by rw [hc]; rfl, rfl⟩
    · rw [if_neg hc] at h
      obtain ⟨first, more, hsplit⟩ := List.exists_cons_of_ne_nil (splitAt_ne_nil sep rest)
      rw [hsplit, List.cons.injEq] at h
      obtain ⟨rfl, rfl⟩ := h
      rcases ih hsplit with ⟨rfl, rfl⟩ | ⟨rest', rfl, hrest'⟩
      · exact .inl ⟨rfl, rfl⟩
      · exact .inr ⟨rest', rfl, hrest'⟩

/-- The pieces are those of the library's function. -/
theorem splitAt_eq_splitOn (sep : Char) (cs : List Char) : splitAt sep cs = cs.splitOn sep := by
  rw [List.splitOn_eq_splitOnP]
  induction cs with
  | nil => rfl
  | cons c rest ih =>
    rw [splitAt, ih, List.splitOnP_cons_eq_if_modifyHead]
    by_cases hc : c = sep
    · simp [hc]
    · obtain ⟨piece, pieces, hsplit⟩ :=
        List.exists_cons_of_ne_nil (List.splitOnP_ne_nil (· == sep) rest)
      simp [hc, hsplit]

/-- No piece holds a separator. -/
theorem not_mem_of_mem_splitAt {sep : Char} {cs piece : List Char} (h : piece ∈ splitAt sep cs) :
    sep ∉ piece := by
  induction cs generalizing piece with
  | nil =>
    obtain rfl : piece = [] := by simpa [splitAt] using h
    exact List.not_mem_nil
  | cons c rest ih =>
    by_cases hc : c = sep
    · rw [splitAt, if_pos hc] at h
      rcases List.mem_cons.mp h with rfl | h
      · exact List.not_mem_nil
      · exact ih h
    · -- only the first piece takes the character, and it is no separator
      obtain ⟨first, pieces, hsplit, hcons⟩ := splitAt_cons_of_ne hc rest
      rw [hsplit] at ih
      rw [hcons] at h
      rcases List.mem_cons.mp h with rfl | h
      · rw [List.mem_cons, not_or]
        exact ⟨Ne.symm hc, ih List.mem_cons_self⟩
      · exact ih (List.mem_cons_of_mem _ h)

end Scim.Text
