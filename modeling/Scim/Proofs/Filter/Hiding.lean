import Mathlib.Data.List.Basic
import Scim.Filter.Parser
import Scim.Proofs.Filter.Layout
import Scim.Proofs.Filter.Unmasking

/-!
  # Literals are hidden without loss

  A text whose quoted literals are masked can be given back, and so can every word of it: it stands
  at one place of the text, and is unmasked to what stands there (`Masked.Faithful`).  This is so if
  and only if the text has no U+0000 outside of its literals (`Masked.faithful_iff`); inside of them
  U+0000 does no harm, for there it is put aside.

    * A bracket or blank of the masked text is one of the text itself, so what is masked to the part
      before it, and to the part after it, can be told apart (`maskFrom_cut`).
    * A word stands where the text is parted before and after it (`Token.WordAt`), so its source can be
      told apart, too (`maskFrom_split`).
    * Nothing that is unmasked begins with U+0000 where a border stood (`head?_joinPieces`), so a
      U+0000 outside of all literals does not come back (`unmask_ne`).
-/

namespace Scim

namespace Masked

open Token (Breaks WordAt)

variable {m : Masked} {n : Nat} {cs chars word lit : List Char} {lits : List (List Char)}

/-! ## Cutting a masked text -/

/-- What stands before and after a break was masked on its own. -/
theorem maskFrom_cut {c : Char} (hc : Breaks c) {a b : List Char}
    (h : maskFrom n cs = (a ++ c :: b, lits, none)) :
    ∃ before after la lb, cs = before ++ c :: after ∧ maskFrom n before = (a, la, none) ∧
      maskFrom (n + la.length) after = (b, lb, none) ∧ lits = la ++ lb := by
  fun_induction maskFrom n cs generalizing a lits with
  | case1 => simp at h
  | case2 => simp at h
  | case3 n rest body after hclose _ chars' lits' unclosed heq ih =>
    simp only [Prod.mk.injEq] at h
    obtain ⟨hchars, rfl, rfl⟩ := h
    -- a mask has no break in it
    obtain ⟨a', rfl, rfl⟩ : ∃ a', a = maskOf n ++ a' ∧ chars' = a' ++ c :: b := by
      rcases List.append_eq_append_iff.mp hchars with ⟨a', ha, hb⟩ | ⟨b', hmask, hb⟩
      · exact ⟨a', ha, hb⟩
      · cases b' with
        | nil => exact ⟨[], by simpa using hmask.symm, by simpa using hb.symm⟩
        | cons d b' =>
          obtain ⟨rfl, -⟩ := List.cons.inj hb
          have hunbroken := isUnbroken_of_mem_maskOf (n := n) c (by simp [hmask])
          exact absurd (hc.symm.trans hunbroken) Bool.false_ne_true
    obtain ⟨before, after', la, lb, rfl, hbefore, hafter, rfl⟩ := ih heq
    have hquoted : maskFrom n ('"' :: (body ++ '"' :: before)) =
        (maskOf n ++ a', ('"' :: body ++ ['"']) :: la, none) := by
      have happ := Text.closeQuote_append (Text.closeQuote_body hclose) before
      rw [List.append_assoc, List.singleton_append, List.nil_append] at happ
      rw [maskFrom_quoted happ, hbefore]
    refine ⟨_, after', _, lb, ?_, hquoted, ?_, rfl⟩
    · rw [Text.eq_of_closeQuote hclose]
      simp
    · rwa [List.length_cons, Nat.add_comm la.length, ← Nat.add_assoc]
  | case4 n d rest hd chars' lits' unclosed heq ih =>
    simp only [Prod.mk.injEq] at h
    obtain ⟨hchars, rfl, rfl⟩ := h
    cases a with
    | nil =>
      obtain ⟨rfl, rfl⟩ := List.cons.inj hchars
      exact ⟨[], rest, [], lits', rfl, maskFrom_nil n, heq, rfl⟩
    | cons d' a' =>
      obtain ⟨rfl, rfl⟩ := List.cons.inj hchars
      obtain ⟨before, after, la, lb, rfl, hbefore, hafter, rfl⟩ := ih heq
      exact ⟨d :: before, after, la, lb, rfl, by rw [maskFrom_cons hd, hbefore], hafter, rfl⟩

/-- Characters that are parted were masked apart. -/
theorem maskFrom_split {a b : List Char} (hparted : Token.Parted a b)
    (h : maskFrom n cs = (a ++ b, lits, none)) :
    ∃ x y la lb, cs = x ++ y ∧ maskFrom n x = (a, la, none) ∧
      maskFrom (n + la.length) y = (b, lb, none) ∧ lits = la ++ lb := by
  cases hparted with
  | start => exact ⟨[], cs, [], lits, rfl, maskFrom_nil n, h, rfl⟩
  | stop =>
    rw [List.append_nil] at h
    exact ⟨cs, [], lits, [], by simp, h, maskFrom_nil _, by simp⟩
  | @behind c a b hc =>
    rw [List.append_assoc, List.singleton_append] at h
    obtain ⟨x, y, la, lb, rfl, hx, hy, rfl⟩ := maskFrom_cut hc h
    refine ⟨x ++ [c], y, la, lb, by simp, ?_, hy, rfl⟩
    rw [maskFrom_append n x [c] hx, maskFrom_cons hc.ne_quote, maskFrom_nil]
    simp
  | @before c a b hc =>
    obtain ⟨x, y, la, lb, rfl, hx, hy, rfl⟩ := maskFrom_cut hc h
    refine ⟨x, c :: y, la, lb, rfl, hx, ?_, rfl⟩
    rw [maskFrom_cons hc.ne_quote, hy]

/-! ## Faithful masks -/

/-- A piece of a text stands where a word of the masked text starts, and is masked to that word. -/
def StandsAt (input source word : List Char) (start : Nat) : Prop :=
  ∃ before after lits, input = before ++ (source ++ after) ∧ (mask before).2 = none ∧
    (mask before).1.chars.length = start ∧
    maskFrom (mask before).1.literals.length source = (word, lits, none)

/-- Nothing of a text is lost in its mask, and nothing is added: all of it is given back, and so is
    what stands at the place of a word; and a word is taken for a literal only where that literal
    stands. -/
structure Faithful (input : List Char) : Prop where
  whole : (mask input).1.unmask (mask input).1.chars = input
  words : ∀ word start, .word word start ∈ Token.readAll (mask input).1 →
    ∃ source, StandsAt input source word start ∧ (mask input).1.unmask word = source ∧
      ∀ lit ∈ (mask input).1.literal? word, lit = source

/-- A text in which no literal is left open, with its mask. -/
theorem mask_eq (h : maskFrom 0 cs = (chars, lits, none)) : mask cs = (⟨chars, lits⟩, none) := by
  simp [mask, h]

/-- What is outside of literals lies on one side of a place where no literal is open, or on the
    other. -/
theorem unquoted_append {a : List Char} (h : maskFrom n a = (chars, lits, none)) (b : List Char) :
    unquoted (a ++ b) = unquoted a ++ unquoted b := by
  fun_induction maskFrom n a generalizing chars lits with
  | case1 => simp [unquoted]
  | case2 => simp at h
  -- a literal is left out, and it is closed before the place
  | case3 n rest body after hclose _ chars' lits' unclosed heq ih =>
    simp only [Prod.mk.injEq] at h
    obtain ⟨-, -, rfl⟩ := h
    rw [List.cons_append, unquoted_quoted (Text.closeQuote_append hclose b), unquoted_quoted hclose,
      ih heq]
  | case4 n c rest hc chars' lits' unclosed heq ih =>
    simp only [Prod.mk.injEq] at h
    obtain ⟨-, -, rfl⟩ := h
    rw [List.cons_append, unquoted_cons hc, unquoted_cons hc, ih heq, List.cons_append]

/-- What is taken for a literal is unmasked to it. -/
theorem unmask_of_literal? (h : m.literal? word = some lit) : m.unmask word = lit := by
  unfold literal? at h
  split at h
  · rename_i c rest
    rw [Option.ite_none_right_eq_some] at h
    obtain ⟨hborders, hlit⟩ := h
    simp only [Bool.and_eq_true, decide_eq_true_eq, beq_iff_eq] at hborders
    obtain ⟨rfl, hlast⟩ := hborders
    -- a border between the borders would leave no number
    have hnumber : border ∉ rest.dropLast := by
      intro hmem
      rw [literalAt?, index?_eq_none hmem (by decide) (by decide)] at hlit
      cases hlit
    have hrest : rest = rest.dropLast ++ [border] :=
      (List.dropLast_append_getLast? border hlast).symm
    rw [hrest, unmask_number_append hnumber hlit, unmask_of_not_mem List.not_mem_nil,
      List.append_nil]
  · cases h

/-- Pieces of a text: the one before is masked to `a`, the next one to `b`. -/
structure Pieces (input before source after a b : List Char) : Prop where
  text_eq : input = before ++ (source ++ after)
  closed : (mask before).2 = none
  chars_before : (mask before).1.chars = a
  masked : ∃ lits, maskFrom (mask before).1.literals.length source = (b, lits, none) ∧
    (mask input).1.Holds (mask before).1.literals.length lits
  free : border ∉ unquoted source

/-- A piece is what its mask is unmasked to. -/
theorem Pieces.unmasked {input before source after a b : List Char}
    (h : Pieces input before source after a b) : (mask input).1.unmask b = source := by
  obtain ⟨lits, hmask, hholds⟩ := h.masked
  exact unmask_maskFrom h.free hmask hholds

/-- What can be cut out of the masked text is the mask of a piece of the text. -/
theorem exists_pieces {input a b c : List Char} (hclosed : (mask input).2 = none)
    (hborder : border ∉ unquoted input) (hchars : (mask input).1.chars = a ++ (b ++ c))
    (hbefore : Token.Parted a (b ++ c)) (hbehind : Token.Parted b c) :
    ∃ before source after, Pieces input before source after a b ∧
      ∃ n lits, maskFrom n after = (c, lits, none) := by
  obtain ⟨lits, hmask⟩ : ∃ lits, maskFrom 0 input = (a ++ (b ++ c), lits, none) :=
    ⟨_, Prod.ext hchars (Prod.ext rfl hclosed)⟩
  have hholds : (mask input).1.Holds 0 lits := by
    have hall := holds_mask input
    rwa [hmask] at hall
  -- first what stands before the piece is cut off, then what stands after it
  obtain ⟨before, rest, lb, lr, rfl, hmaskBefore, hmaskRest, rfl⟩ := maskFrom_split hbefore hmask
  obtain ⟨source, after, ls, la, rfl, hmaskSource, hmaskAfter, rfl⟩ :=
    maskFrom_split hbehind hmaskRest
  have hsource : border ∉ unquoted source := by
    rw [unquoted_append hmaskBefore, unquoted_append hmaskSource] at hborder
    exact fun hmem => hborder (List.mem_append_right _ (List.mem_append_left _ hmem))
  have hls := (holds_append.mp (holds_append.mp hholds).2).1
  have hmasked := mask_eq hmaskBefore
  have hnumber : 0 + lb.length = (mask before).1.literals.length := by rw [hmasked, Nat.zero_add]
  rw [hnumber] at hls hmaskSource
  exact ⟨before, source, after,
    ⟨rfl, by rw [hmasked], by rw [hmasked], ⟨ls, hmaskSource, hls⟩, hsource⟩, _, la, hmaskAfter⟩

/-- A text without U+0000 outside of its literals is masked faithfully. -/
theorem faithful_of_not_mem {input : List Char} (hclosed : (mask input).2 = none)
    (h : border ∉ unquoted input) : Faithful input := by
  refine ⟨?_, fun word start hmem => ?_⟩
  · have hmask : maskFrom 0 input = ((mask input).1.chars, (mask input).1.literals, none) :=
      Prod.ext rfl (Prod.ext rfl hclosed)
    exact unmask_maskFrom h hmask (holds_mask input)
  · -- the word is cut out between the places where the characters part
    obtain ⟨pre, post, hword, rfl, hbefore, hafter⟩ := Token.wordAt_of_mem_readAll hmem
    obtain ⟨before, source, after, hpieces, -⟩ := exists_pieces hclosed h hword hbefore hafter
    obtain ⟨ls, hls, -⟩ := hpieces.masked
    refine ⟨source, ⟨before, after, ls, hpieces.text_eq, hpieces.closed, ?_, hls⟩,
      hpieces.unmasked, fun lit hlit => (unmask_of_literal? hlit).symm.trans hpieces.unmasked⟩
    rw [hpieces.chars_before]

/-! ## What is lost -/

/-- A literal begins with its quote. -/
theorem head?_of_mem_literals (h : lit ∈ (maskFrom n cs).2.1) : lit.head? = some '"' := by
  fun_induction maskFrom n cs with
  | case1 => cases h
  | case2 => cases h
  | case3 n rest body after hclose _ chars lits unclosed heq ih =>
    rw [heq] at ih
    rcases List.mem_cons.mp h with rfl | h
    · rfl
    · exact ih h
  | case4 n c rest hc chars lits unclosed heq ih =>
    rw [heq] at ih
    exact ih h

/-- What is put together begins with a literal, or with what is no border. -/
theorem head?_joinPieces (hlits : ∀ lit ∈ m.literals, lit.head? = some '"')
    {pieces : List (List Char)} (hpieces : ∀ piece ∈ pieces, border ∉ piece) (inside : Bool) :
    (m.joinPieces inside pieces).head? ≠ some border := by
  induction pieces generalizing inside with
  | nil => cases inside <;> exact nofun
  | cons piece rest ih =>
    obtain ⟨hpiece, hrest⟩ := List.forall_mem_cons.mp hpieces
    -- what is there for a piece decides, and where there is nothing, what follows does
    have hfirst : ∀ (front : List Char) (inside : Bool), front.head? ≠ some border →
        (front ++ m.joinPieces inside rest).head? ≠ some border := by
      intro front inside hfront
      cases front with
      | nil => exact ih hrest inside
      | cons c front => exact hfront
    have hown : piece.head? ≠ some border := fun h => hpiece (List.mem_of_head? h)
    cases inside with
    | false => exact hfirst piece true hown
    | true =>
      refine hfirst _ false ?_
      cases hlit : m.literalAt? piece with
      | none => exact hown
      | some lit =>
        obtain ⟨i, -, hi⟩ := Option.bind_eq_some_iff.mp hlit
        rw [Option.getD_some, hlits lit (List.mem_of_getElem? hi)]
        decide

/-- A U+0000 outside of all literals does not come back. -/
theorem unmask_ne (hlits : ∀ lit ∈ m.literals, lit.head? = some '"')
    (h : maskFrom n cs = (chars, lits, none)) (hm : m.Holds n lits) (hborder : border ∈ unquoted cs) :
    m.unmask chars ≠ cs := by
  fun_induction maskFrom n cs generalizing chars lits with
  | case1 n => simp [unquoted] at hborder
  | case2 n rest hclose => simp at h
  | case3 n rest body after hclose _ chars' lits' unclosed heq ih =>
    simp only [Prod.mk.injEq] at h
    obtain ⟨rfl, rfl, rfl⟩ := h
    obtain ⟨hlit, hm⟩ := holds_cons.mp hm
    rw [unquoted_quoted hclose] at hborder
    -- a literal comes back, so the rest does not
    rw [Text.eq_of_closeQuote hclose, unmask_maskOf_append hlit]
    intro heq'
    exact ih heq hm hborder (by simpa using heq')
  | case4 n c rest hc chars' lits' unclosed heq ih =>
    simp only [Prod.mk.injEq] at h
    obtain ⟨rfl, rfl, rfl⟩ := h
    rw [unquoted_cons hc, List.mem_cons] at hborder
    by_cases hb : c = border
    · -- what is put in its place begins otherwise
      subst hb
      rw [unmask, Text.splitAt, if_pos rfl, joinPieces, List.nil_append]
      have hpieces : ∀ piece ∈ Text.splitAt border chars', border ∉ piece :=
        fun _ hpiece => Text.not_mem_of_mem_splitAt hpiece
      intro heq'
      exact head?_joinPieces hlits hpieces true (by rw [heq', List.head?_cons])
    · rw [unmask_cons m hb]
      exact fun heq' => ih heq hm (hborder.resolve_left (Ne.symm hb)) (List.cons.inj heq').2

/-- A text without an open literal is masked faithfully if and only if it has no U+0000 outside of
    its literals. -/
theorem faithful_iff {input : List Char} (hclosed : (mask input).2 = none) :
    Faithful input ↔ border ∉ unquoted input := by
  constructor
  · intro hfaithful hborder
    have hmask : maskFrom 0 input = ((maskFrom 0 input).1, (maskFrom 0 input).2.1, none) :=
      Prod.ext rfl (Prod.ext rfl hclosed)
    exact unmask_ne (fun lit hlit => head?_of_mem_literals hlit) hmask (holds_mask input) hborder
      hfaithful.whole
  · exact faithful_of_not_mem hclosed

/-- A text with U+0000 in a literal. -/
def withinLiteral : List Char := "motto eq \"a\u00000\u0000b\" and moniker pr".toList

/-- U+0000 in a literal does no harm, not even in the guise of a mask. -/
theorem faithful_withinLiteral :
    (mask withinLiteral).2 = none ∧ border ∈ withinLiteral ∧ Faithful withinLiteral := by
  have hclosed : (mask withinLiteral).2 = none := by decide +kernel
  have hunquoted : border ∉ unquoted withinLiteral := by decide +kernel
  exact ⟨hclosed, by decide +kernel, (faithful_iff hclosed).mpr hunquoted⟩

/-- A text that has the mask of its own literal where no literal stands. -/
def forged : List Char := "motto eq \u00000\u0000 or moniker eq \"x\"".toList

/-- The forged mask is taken for the literal, so the text is read as another one. -/
theorem not_faithful_forged :
    (mask forged).2 = none ∧ (forged.drop 9).take 3 = maskOf 0 ∧
      .word (maskOf 0) 9 ∈ Token.readAll (mask forged).1 ∧
      (mask forged).1.literal? (maskOf 0) = some "\"x\"".toList ∧
      (Filter.read .empty .standard forged).toOption.map Filter.text =
        some "motto eq \"x\" or moniker eq \"x\"" ∧
      (mask forged).1.unmask (mask forged).1.chars ≠ forged ∧ ¬Faithful forged := by
  have hlost : (mask forged).1.unmask (mask forged).1.chars ≠ forged := by decide +kernel
  exact ⟨by decide +kernel, by decide +kernel, by decide +kernel, by decide +kernel,
    by decide +kernel, hlost, fun hfaithful => hlost hfaithful.whole⟩

end Masked

end Scim
