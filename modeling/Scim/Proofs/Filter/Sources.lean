import Scim.Proofs.Filter.Words
import Scim.Proofs.Json.Number
import Scim.Proofs.Text.Splitting

/-!
  # What words are read as

  A word of the masked text is read by what it stands for, and by nothing else.

    * `unmask` gives its source back (`unmask_of_spells`);
    * the operand that it is read as is the quoted string, the constant or the number that its
      source is (`operand?_of_spells`).
-/

namespace Scim

/-- What a piece of text is as an operand: a quoted string, or a constant or number. -/
def Literal.IsRead (source : List Char) (lit : Literal) : Prop :=
  ofQuoted? source = some lit ∨ ofWord? source = some lit

/-- A constant or number has neither quotes nor masks. -/
theorem Literal.not_mem_of_ofWord? {word : List Char} {lit : Literal}
    (h : ofWord? word = some lit) {c : Char} (hc : Json.isNumeric c = false) : c ∉ word := by
  intro hmem
  obtain ⟨v, hv⟩ : ∃ v, Json.scalar? word = some v := by
    cases hv : Json.scalar? word with
    | some v => exact ⟨v, rfl⟩
    | none =>
      rw [ofWord?, hv] at h
      exact absurd h (by simp)
  rw [Json.isNumeric_of_scalar? hv c hmem] at hc
  exact absurd hc (by decide)

namespace Masked

/-! ## Sources are given back -/

/-- A mask is a number between two borders. -/
theorem maskOf_append (i : Nat) (rest : List Char) :
    maskOf i ++ rest = border :: (Nat.toDigits 10 i ++ border :: rest) := by
  simp [maskOf]

/-- The number of a mask is read back. -/
theorem index?_toDigits (n : Nat) : index? (Nat.toDigits 10 n) = some n := by
  have hall : (Nat.toDigits 10 n).all Char.isDigit = true :=
    List.all_eq_true.mpr fun c hc => isDigit_of_mem_toDigits hc
  have hne : (Nat.toDigits 10 n).isEmpty = false := by simp [Nat.toDigits_ne_nil]
  have hval : (Nat.toDigits 10 n).foldl (fun n c => 10 * n + (c.toNat - '0'.toNat)) 0 = n :=
    Json.natValue_toDigits n
  unfold index?
  dsimp only
  split
  · rename_i rest h
    exact absurd (h ▸ List.mem_cons_self) (not_mem_toDigits (n := n) (by decide))
  · rw [hne, hall, hval]
    rfl

/-- Only digits and a plus sign make an index. -/
theorem index?_eq_none {cs : List Char} {c : Char} (hmem : c ∈ cs) (hplus : c ≠ '+')
    (hc : c.isDigit = false) : index? cs = none := by
  have hnone : ∀ digits : List Char, c ∈ digits → digits.all Char.isDigit = false :=
    fun digits h => List.all_eq_false.mpr ⟨c, h, by simp [hc]⟩
  unfold index?
  dsimp only
  split
  · rename_i rest
    rw [hnone rest ((List.mem_cons.mp hmem).resolve_left hplus), Bool.not_false, Bool.or_true,
      if_pos rfl]
  · rw [hnone cs hmem, Bool.not_false, Bool.or_true, if_pos rfl]

/-- A character that is no border stays where it is. -/
theorem unmask_cons (m : Masked) {c : Char} (hc : c ≠ border) (cs : List Char) :
    m.unmask (c :: cs) = c :: m.unmask cs := by
  obtain ⟨piece, pieces, hsplit, hcons⟩ := Text.splitAt_cons_of_ne hc cs
  rw [unmask, unmask, hcons, hsplit, joinPieces, joinPieces, List.cons_append]

/-- The number of a literal between borders is unmasked to that literal, however it is written. -/
theorem unmask_number_append {m : Masked} {number lit : List Char} (hborder : border ∉ number)
    (h : m.literalAt? number = some lit) (cs : List Char) :
    m.unmask (border :: (number ++ border :: cs)) = lit ++ m.unmask cs := by
  rw [unmask, Text.splitAt, if_pos rfl, Text.splitAt_append hborder, joinPieces, joinPieces, h]
  rfl

/-- A mask is unmasked to its literal. -/
theorem unmask_maskOf_append {m : Masked} {i : Nat} {lit : List Char}
    (h : m.literals[i]? = some lit) (cs : List Char) :
    m.unmask (maskOf i ++ cs) = lit ++ m.unmask cs := by
  have hlit : m.literalAt? (Nat.toDigits 10 i) = some lit := by
    rw [literalAt?, index?_toDigits, Option.bind_some, h]
  rw [maskOf_append, unmask_number_append (not_mem_toDigits (by decide)) hlit]

/-- What a word stands for is what it is unmasked to. -/
theorem unmask_of_spells {m : Masked} {word source : List Char} (h : Spells m word source) :
    m.unmask word = source := by
  induction h with
  | nil => rfl
  | char c hc _ ih => rw [unmask_cons m (ne_border_of_isPlain hc), ih]
  | literal i hlit _ _ _ ih =>
    rw [unmask_maskOf_append hlit, ih]
    simp

/-! ## Operands -/

/-- A word is its own source, or has masks where the source has quotes. -/
theorem Spells.eq_or_mem {m : Masked} {word source : List Char} (h : Spells m word source) :
    word = source ∨ (border ∈ word ∧ '"' ∈ source) := by
  induction h with
  | nil => exact .inl rfl
  | char c _ _ ih =>
    rcases ih with rfl | ⟨hw, hs⟩
    · exact .inl rfl
    · exact .inr ⟨List.mem_cons_of_mem c hw, List.mem_cons_of_mem c hs⟩
  | literal => exact .inr ⟨by simp [maskOf], by simp⟩

/-- A word of several pieces is not the mask of a literal. -/
theorem literal?_maskOf_append (m : Masked) (i : Nat) {word : List Char} (hne : word ≠ []) :
    m.literal? (maskOf i ++ word) = none := by
  rw [maskOf_append, literal?]
  split
  · have hmem : border ∈ (Nat.toDigits 10 i ++ border :: word).dropLast := by
      rw [← List.singleton_append, ← List.append_assoc, List.dropLast_append_of_ne_nil hne]
      simp
    rw [literalAt?, index?_eq_none hmem (by decide) (by decide), Option.bind_none]
  · rfl

/-- Which operand a word is read as. -/
def operand? (m : Masked) (word : List Char) : Option Literal :=
  match m.literal? word with
  | some quoted => Literal.ofQuoted? quoted
  | none => Literal.ofWord? word

/-- A word is read as the quoted string, the constant or the number that it stands for. -/
theorem operand?_of_spells {m : Masked} {word source : List Char} (h : Spells m word source)
    (lit : Literal) :
    m.operand? word = some lit ↔ Literal.IsRead source lit := by
  have hquote : ∀ {cs : List Char}, '"' ∈ cs → Literal.ofWord? cs ≠ some lit :=
    fun hmem hlit => Literal.not_mem_of_ofWord? hlit (by decide) hmem
  have hborder : ∀ {cs : List Char}, border ∈ cs → Literal.ofWord? cs ≠ some lit :=
    fun hmem hlit => Literal.not_mem_of_ofWord? hlit (by decide) hmem
  unfold operand? Literal.IsRead
  cases h with
  | nil => simp [literal?, Literal.ofQuoted?, Text.unquote]
  -- a word that does not begin with a literal can only be a constant or number
  | @char word source c hc hrest =>
    have hfirst : m.literal? (c :: word) = none := by
      simp [literal?, ne_border_of_isPlain hc]
    have hunquoted : Literal.ofQuoted? (c :: source) = none := by
      rw [Literal.ofQuoted?, Text.unquote, Option.map_none]
      rintro _ h
      exact ne_quote_of_isPlain hc (List.cons.inj h).1
    rw [hfirst, hunquoted]
    rcases hrest.eq_or_mem with rfl | ⟨hw, hs⟩
    · simp
    · simp [hborder (List.mem_cons_of_mem c hw), hquote (List.mem_cons_of_mem c hs)]
  | @literal word source body i hlit hclose hb hrest =>
    have hunword : Literal.ofWord? ('"' :: body ++ '"' :: source) ≠ some lit := hquote (by simp)
    by_cases hw : word = []
    · subst hw
      obtain rfl : source = [] := hrest.eq_nil_iff.mp rfl
      have hfound : m.literal? (maskOf i ++ []) = some ('"' :: body ++ ['"']) := by
        rw [maskOf_append, literal?]
        simp [literalAt?, index?_toDigits, hlit]
      rw [hfound, or_iff_left hunword]
    · -- behind the literal there is more, so that it is neither a string nor a constant
      have hsource : source ≠ [] := fun h => hw (hrest.eq_nil_iff.mpr h)
      have hopen : Literal.ofQuoted? ('"' :: body ++ '"' :: source) = none := by
        have happ := Text.closeQuote_append hclose source
        rw [List.append_assoc, List.singleton_append, List.nil_append] at happ
        rw [Literal.ofQuoted?, List.cons_append, Text.unquote, happ]
        cases source with
        | nil => exact absurd rfl hsource
        | cons => rfl
      rw [literal?_maskOf_append m i hw, hopen]
      have hmasked : border ∈ maskOf i ++ word := by simp [maskOf]
      exact ⟨fun h => absurd h (hborder hmasked), fun h => h.elim (by simp) (absurd · hunword)⟩

end Masked

end Scim
