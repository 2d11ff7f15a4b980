import Scim.Filter.Operator
import Scim.Filter.Token
import Scim.Proofs.Text.Casing
import Scim.Proofs.Text.Quoted

/-!
  # Words and their sources

  The tokens of a filter are read off a masked text, but what they mean is settled by the text that
  was masked.  `Masked.Spells m word source` says that a word of the masked text stands for a piece
  of the text itself, its `source`.

    * Every word of a text without U+0000 has a source (`spells_of_mem_readAll`).
    * A text is the source of a word, whatever stands around it, if a small automaton accepts it
      (`isWord`, `spells_of_isWord`).  The automaton only looks at caseless characters, so it
      accepts a text in every casing (`isWord_of_lower_eq`).
-/

namespace Scim

/-! ## The automaton of words -/

/-- A character that stands for itself in a word. -/
def isPlain (c : Char) : Bool := !Operators.breaksWord c && c != Masked.border

/-- Where the reader of a word stands. -/
inductive WordState where
  | outside
  /-- Inside of quotes. -/
  | inside
  /-- After a backslash inside of quotes. -/
  | escaped
  /-- After a character that no word holds. -/
  | broken
deriving DecidableEq

/-- One character further. -/
def WordState.step : WordState → Char → WordState
  | .outside, c => if c = '"' then .inside else if isPlain c then .outside else .broken
  | .inside, c =>
    if c = Masked.border then .broken
    else if c = '"' then .outside
    else if c = '\\' then .escaped else .inside
  | .escaped, c => if c = Masked.border then .broken else .inside
  | .broken, _ => .broken

/-- Whether a text may be a word, or part of one: its quotes are closed, and outside of them are no
    blanks and brackets. -/
def isWord (cs : List Char) : Prop := cs.foldl WordState.step .outside = .outside

instance (cs : List Char) : Decidable (isWord cs) := inferInstanceAs (Decidable (_ = _))

/-- What is broken stays so. -/
theorem foldl_broken (cs : List Char) : cs.foldl WordState.step .broken = .broken := by
  induction cs with
  | nil => rfl
  | cons c rest ih => exact ih

/-- No word holds U+0000. -/
theorem border_not_mem_of_isWord {cs : List Char} (h : isWord cs) : Masked.border ∉ cs := by
  intro hmem
  obtain ⟨a, b, rfl⟩ := List.append_of_mem hmem
  have hbroken : ∀ state : WordState, state.step Masked.border = .broken := by
    intro state
    cases state <;> rfl
  rw [isWord, List.foldl_append, List.foldl_cons, hbroken, foldl_broken] at h
  exact absurd h (by decide)

/-- Letters with a case are plain, and none of the characters that the automaton looks at. -/
theorem isPlain_of_caseless_eq_false {c : Char} (h : Text.caseless c = false) :
    isPlain c = true ∧ c ≠ '"' ∧ c ≠ '\\' ∧ c ≠ Masked.border := by
  have hne : ∀ d, Text.caseless d = true → c ≠ d := by
    rintro d hd rfl
    rw [h] at hd
    exact absurd hd (by decide)
  have hblank : Text.isBlank c = false := by
    rw [Text.caseless, Bool.or_eq_false_iff] at h
    exact h.2
  have hborder : c ≠ Masked.border := hne _ (by decide +kernel)
  refine ⟨?_, hne _ (by decide +kernel), hne _ (by decide +kernel), hborder⟩
  simp [isPlain, Operators.breaksWord, hblank, hne '(' (by decide +kernel),
    hne ')' (by decide +kernel), hne '[' (by decide +kernel), hne ']' (by decide +kernel),
    hne '"' (by decide +kernel), hborder]

/-- A text is a word in every casing. -/
theorem isWord_of_lower_eq {a b : String} (h : Text.lower a = Text.lower b) (ha : isWord a.toList) :
    isWord b.toList := by
  unfold isWord at ha ⊢
  -- a character with a case is plain, so no state tells two of them apart
  refine (Text.foldl_eq_of_lower_eq WordState.step ?_ ?_ h .outside).symm.trans ha
  · intro s c d hc hd
    obtain ⟨hcp, hcq, hcb, hcn⟩ := isPlain_of_caseless_eq_false hc
    obtain ⟨hdp, hdq, hdb, hdn⟩ := isPlain_of_caseless_eq_false hd
    cases s <;> simp [WordState.step, hcp, hcq, hcb, hcn, hdp, hdq, hdb, hdn]
  · intro s c d hc hd
    obtain ⟨hcp, hcq, hcb, hcn⟩ := isPlain_of_caseless_eq_false hc
    obtain ⟨hdp, hdq, hdb, hdn⟩ := isPlain_of_caseless_eq_false hd
    cases s <;> simp [WordState.step, hcp, hcq, hcb, hcn, hdp, hdq, hdb, hdn]

/-- A character that stands for itself neither opens nor closes quotes. -/
theorem step_eq_outside {c : Char} (hc : isPlain c = true) (state : WordState) :
    state.step c = .outside ↔ state = .outside := by
  have hq : c ≠ '"' := by
    rintro rfl
    exact absurd hc (by decide)
  cases state with
  | outside => rw [WordState.step, if_neg hq, if_pos hc]
  | inside =>
    rw [WordState.step, if_neg hq]
    split
    · simp
    · split <;> simp
  | escaped =>
    rw [WordState.step]
    split <;> simp
  | broken => rfl

/-- Plain characters do not change on which side of the quotes the automaton is. -/
theorem foldl_eq_outside {cs : List Char} (h : ∀ c ∈ cs, isPlain c = true) :
    ∀ state : WordState, cs.foldl WordState.step state = .outside ↔ state = .outside := by
  induction cs with
  | nil => exact fun _ => Iff.rfl
  | cons c rest ih =>
    intro state
    rw [List.foldl_cons, ih (fun d hd => h d (List.mem_cons_of_mem c hd)),
      step_eq_outside (h c List.mem_cons_self)]

/-- Plain characters behind a word make a word. -/
theorem isWord_append_plain {a b : List Char} (h : ∀ c ∈ b, isPlain c = true) :
    isWord (a ++ b) ↔ isWord a := by
  unfold isWord
  rw [List.foldl_append, foldl_eq_outside h]

theorem isWord_of_plain {cs : List Char} (h : ∀ c ∈ cs, isPlain c = true) : isWord cs :=
  (foldl_eq_outside h .outside).mpr rfl

/-- Inside of quotes the automaton looks for the closing one. -/
theorem foldl_inside {cs body after : List Char} (h : Text.closeQuote cs = some (body, after)) :
    Masked.border ∉ body →
      cs.foldl WordState.step .inside = after.foldl WordState.step .outside := by
  fun_induction Text.closeQuote cs generalizing body after with
  | case1 => simp at h
  | case2 rest =>
    obtain ⟨rfl, rfl⟩ := by simpa using h
    intro _
    rfl
  -- an escaped character does not count, whatever it is
  | case3 c rest ih =>
    obtain ⟨⟨b, a⟩, hb, he⟩ := Option.map_eq_some_iff.1 h
    simp only [Prod.mk.injEq] at he
    obtain ⟨rfl, rfl⟩ := he
    intro hborder
    simp only [List.mem_cons, not_or] at hborder
    rw [List.foldl_cons, List.foldl_cons, ← ih hb hborder.2.2]
    rw [show WordState.step .inside '\\' = .escaped from rfl, WordState.step,
      if_neg (Ne.symm hborder.2.1)]
  | case4 c rest hq hb ih =>
    obtain ⟨⟨b, a⟩, hb', he⟩ := Option.map_eq_some_iff.1 h
    simp only [Prod.mk.injEq] at he
    obtain ⟨rfl, rfl⟩ := he
    intro hborder
    simp only [List.mem_cons, not_or] at hborder
    have hslash : c ≠ '\\' := by
      rintro rfl
      cases rest with
      | nil => simp [Text.closeQuote] at hb'
      | cons d rest' => exact hb d rest' rfl rfl
    have hstep : WordState.step .inside c = .inside := by
      rw [WordState.step, if_neg (Ne.symm hborder.1), if_neg (fun h => hq h), if_neg hslash]
    rw [List.foldl_cons, hstep, ih hb' hborder.2]

/-- If a text that goes on inside of quotes is part of a word, these are closed. -/
theorem exists_closeQuote {cs : List Char} (h : cs.foldl WordState.step .inside = .outside) :
    ∃ body after, Text.closeQuote cs = some (body, after) ∧ Masked.border ∉ body ∧
      isWord after := by
  fun_induction Text.closeQuote cs with
  -- the text ends inside of quotes, where the automaton does not accept
  | case1 => exact absurd h (by decide)
  | case2 rest => exact ⟨[], rest, rfl, by simp, h⟩
  | case3 c rest ih =>
    have hc : c ≠ Masked.border := by
      rintro rfl
      exact absurd ((foldl_broken rest).symm.trans h) (by decide)
    rw [List.foldl_cons, List.foldl_cons, show WordState.step .inside '\\' = .escaped from rfl,
      WordState.step, if_neg hc] at h
    obtain ⟨body, after, hclose, hborder, hafter⟩ := ih h
    refine ⟨'\\' :: c :: body, after, by rw [hclose]; rfl, ?_, hafter⟩
    simp only [List.mem_cons, not_or]
    exact ⟨by decide, hc.symm, hborder⟩
  | case4 c rest hq hb ih =>
    have hc : c ≠ Masked.border := by
      rintro rfl
      exact absurd ((foldl_broken rest).symm.trans h) (by decide)
    by_cases hslash : c = '\\'
    · -- a backslash is only read on its own at the end
      cases rest with
      | nil => exact absurd (hslash ▸ h) (by decide)
      | cons d rest => exact absurd rfl (hb d rest hslash)
    · rw [List.foldl_cons, WordState.step, if_neg hc, if_neg (fun h => hq h), if_neg hslash] at h
      obtain ⟨body, after, hclose, hborder, hafter⟩ := ih h
      refine ⟨c :: body, after, by rw [hclose]; rfl, ?_, hafter⟩
      simp only [List.mem_cons, not_or]
      exact ⟨hc.symm, hborder⟩

/-! ## Masking -/

namespace Masked

theorem maskFrom_nil (n : Nat) : maskFrom n [] = ([], [], none) := by
  rw [maskFrom]

/-- A character outside of literals is masked to itself. -/
theorem maskFrom_cons {c : Char} (hc : c ≠ '"') (n : Nat) (rest : List Char) :
    maskFrom n (c :: rest) =
      (c :: (maskFrom n rest).1, (maskFrom n rest).2.1, (maskFrom n rest).2.2) := by
  rw [maskFrom, if_neg hc]

/-- A literal is masked to the number that it has. -/
theorem maskFrom_quoted {rest body after : List Char}
    (h : Text.closeQuote rest = some (body, after)) (n : Nat) :
    maskFrom n ('"' :: rest) =
      (maskOf n ++ (maskFrom (n + 1) after).1,
        ('"' :: body ++ ['"']) :: (maskFrom (n + 1) after).2.1, (maskFrom (n + 1) after).2.2) := by
  rw [maskFrom, if_pos rfl]
  split
  · rename_i h'
    rw [h] at h'
    exact absurd h' (by simp)
  · rename_i body' after' h'
    rw [h] at h'
    obtain ⟨rfl, rfl⟩ := by simpa using h'
    rfl

/-- A text after one whose literals are closed is masked on its own, with the numbers that are
    left. -/
theorem maskFrom_append (n : Nat) (a b : List Char) {chars : List Char} {lits : List (List Char)}
    (h : maskFrom n a = (chars, lits, none)) :
    maskFrom n (a ++ b) =
      (chars ++ (maskFrom (n + lits.length) b).1, lits ++ (maskFrom (n + lits.length) b).2.1,
        (maskFrom (n + lits.length) b).2.2) := by
  fun_induction maskFrom n a generalizing chars lits with
  | case1 n =>
    obtain ⟨rfl, rfl⟩ := by simpa using h
    rfl
  | case2 n rest hclose => simp at h
  | case3 n rest body after hclose _ chars' lits' unclosed heq ih =>
    simp only [Prod.mk.injEq] at h
    obtain ⟨rfl, rfl, rfl⟩ := h
    have ih' := ih heq
    rw [List.cons_append, maskFrom_quoted (Text.closeQuote_append hclose b) n, ih',
      List.length_cons, Nat.add_assoc, Nat.add_comm 1]
    simp
  | case4 n c rest hc chars' lits' unclosed heq ih =>
    simp only [Prod.mk.injEq] at h
    obtain ⟨rfl, rfl, rfl⟩ := h
    rw [List.cons_append, maskFrom_cons hc, ih heq]
    rfl

/-- The literals of `m` from the number `n` on begin with `lits`. -/
def Holds (m : Masked) (n : Nat) (lits : List (List Char)) : Prop :=
  ∀ i lit, lits[i]? = some lit → m.literals[n + i]? = some lit

theorem Holds.nil (m : Masked) (n : Nat) : m.Holds n [] := by
  intro i lit h
  simp at h

/-- The literals from a number on, one after the other. -/
theorem holds_cons {m : Masked} {n : Nat} {lit : List Char} {lits : List (List Char)} :
    m.Holds n (lit :: lits) ↔ m.literals[n]? = some lit ∧ m.Holds (n + 1) lits := by
  constructor
  · intro h
    refine ⟨h 0 lit rfl, fun i l hi => ?_⟩
    rw [Nat.add_assoc, Nat.add_comm 1]
    exact h (i + 1) l hi
  · rintro ⟨h0, h⟩ i l hi
    cases i with
    | zero =>
      obtain rfl := by simpa using hi
      exact h0
    | succ i =>
      rw [Nat.add_comm i, ← Nat.add_assoc]
      exact h i l hi

/-- Literals of two texts, one after the other. -/
theorem holds_append {m : Masked} {n : Nat} {a b : List (List Char)} :
    m.Holds n (a ++ b) ↔ m.Holds n a ∧ m.Holds (n + a.length) b := by
  induction a generalizing n with
  | nil => exact ⟨fun h => ⟨.nil m n, h⟩, fun h => h.2⟩
  | cons lit a ih =>
    rw [List.cons_append, holds_cons, holds_cons, ih, List.length_cons, Nat.add_assoc n 1,
      Nat.add_comm 1, and_assoc]

/-- A text holds all of its literals. -/
theorem holds_mask (cs : List Char) : (mask cs).1.Holds 0 (maskFrom 0 cs).2.1 := by
  intro i lit h
  rw [Nat.zero_add]
  exact h

/-! ## Words that stand for others -/

/-- A word stands for a piece of the text: outside of literals it is the piece, and where the piece
    has a literal, it has the mask of that literal. -/
inductive Spells (m : Masked) : List Char → List Char → Prop
  | nil : Spells m [] []
  | char {word source : List Char} (c : Char) :
      isPlain c = true → Spells m word source → Spells m (c :: word) (c :: source)
  | literal {word source body : List Char} (i : Nat) :
      m.literals[i]? = some ('"' :: body ++ ['"']) →
      Text.closeQuote (body ++ ['"']) = some (body, []) → border ∉ body →
      Spells m word source → Spells m (maskOf i ++ word) ('"' :: body ++ '"' :: source)

/-- Words and their sources may be put one after the other. -/
theorem Spells.append {m : Masked} {v w s t : List Char} (hv : Spells m v s) (hw : Spells m w t) :
    Spells m (v ++ w) (s ++ t) := by
  induction hv with
  | nil => exact hw
  | char c hc _ ih => exact .char c hc ih
  | literal i hlit hclose hborder _ ih =>
    rw [List.append_assoc, List.append_assoc]
    exact .literal i hlit hclose hborder ih

/-- Only the empty word stands for nothing. -/
theorem Spells.eq_nil_iff {m : Masked} {word source : List Char} (h : Spells m word source) :
    word = [] ↔ source = [] := by
  cases h with
  | nil => rfl
  | char => simp
  | literal => simp [maskOf]

theorem ne_quote_of_isPlain {c : Char} (h : isPlain c = true) : c ≠ '"' := by
  rintro rfl
  exact absurd h (by decide)

theorem ne_border_of_isPlain {c : Char} (h : isPlain c = true) : c ≠ border := by
  rintro rfl
  exact absurd h (by decide)

/-- What a word stands for is part of a word wherever it stands. -/
theorem Spells.isWord {m : Masked} {word source : List Char} (h : Spells m word source) :
    isWord source := by
  induction h with
  | nil => rfl
  | char c hc _ ih =>
    rw [Scim.isWord, List.foldl_cons, WordState.step, if_neg (ne_quote_of_isPlain hc), if_pos hc]
    exact ih
  | @literal word source body i _ hclose hborder _ ih =>
    have happ := Text.closeQuote_append hclose source
    rw [List.append_assoc, List.singleton_append, List.nil_append] at happ
    rw [Scim.isWord, List.cons_append, List.foldl_cons,
      show WordState.step .outside '"' = .inside from rfl, foldl_inside happ hborder]
    exact ih

/-- Every word is masked to something that stands for it. -/
theorem spells_of_isWord (n : Nat) (cs : List Char) (h : isWord cs) :
    ∃ word lits, maskFrom n cs = (word, lits, none) ∧
      ∀ m : Masked, m.Holds n lits → Spells m word cs := by
  -- by the length, for a literal is passed over as a whole
  induction hlen : cs.length using Nat.strongRecOn generalizing n cs with
  | _ len ih =>
    cases cs with
    | nil => exact ⟨[], [], maskFrom_nil n, fun m _ => .nil⟩
    | cons c rest =>
      by_cases hq : c = '"'
      · subst hq
        have hinside : rest.foldl WordState.step .inside = .outside := h
        -- the automaton ends outside, so the quotes are closed somewhere
        obtain ⟨body, after, hclose, hborder, hafter⟩ := exists_closeQuote hinside
        have hlt := Text.length_lt_of_closeQuote hclose
        obtain ⟨word, lits, hmask, hspell⟩ :=
          ih after.length (by simp only [List.length_cons] at hlen; omega) (n + 1) after hafter rfl
        refine ⟨maskOf n ++ word, ('"' :: body ++ ['"']) :: lits, ?_, fun m hm => ?_⟩
        · rw [maskFrom_quoted hclose, hmask]
        · obtain ⟨hlit, hm⟩ := holds_cons.mp hm
          rw [Text.eq_of_closeQuote hclose]
          exact .literal n hlit (Text.closeQuote_body hclose) hborder (hspell m hm)
      · have hplain : isPlain c = true := by
          refine Decidable.byContradiction fun hc => ?_
          rw [isWord, List.foldl_cons, WordState.step, if_neg hq, if_neg hc, foldl_broken] at h
          exact absurd h (by decide)
        have hrest : isWord rest := by
          rw [isWord, List.foldl_cons, WordState.step, if_neg hq, if_pos hplain] at h
          exact h
        obtain ⟨word, lits, hmask, hspell⟩ :=
          ih rest.length (by simp only [List.length_cons] at hlen; omega) n rest hrest rfl
        refine ⟨c :: word, lits, ?_, fun m hm => .char c hplain (hspell m hm)⟩
        rw [maskFrom_cons hq, hmask]

/-! ## The words among the tokens -/

theorem isDigit_of_mem_toDigits {n : Nat} {c : Char} (h : c ∈ Nat.toDigits 10 n) :
    c.isDigit = true :=
  Nat.isDigit_of_mem_toDigits (by decide) (by decide) h

theorem not_mem_toDigits {n : Nat} {c : Char} (hc : c.isDigit = false) : c ∉ Nat.toDigits 10 n := by
  intro h
  rw [isDigit_of_mem_toDigits h] at hc
  exact absurd hc (by decide)

/-- A character that ends no word. -/
def isUnbroken (c : Char) : Bool := !Token.isOpening c && !Token.isClosing c && !Text.isBlank c

/-- A plain character ends no word. -/
theorem isUnbroken_of_isPlain {c : Char} (h : isPlain c = true) : isUnbroken c = true := by
  simp only [isPlain, Operators.breaksWord, Bool.and_eq_true, Bool.not_eq_true',
    Bool.or_eq_false_iff] at h
  obtain ⟨⟨⟨⟨⟨⟨hblank, h1⟩, h2⟩, h3⟩, h4⟩, -⟩, -⟩ := h
  simp [isUnbroken, Token.isOpening, Token.isClosing, hblank, h1, h2, h3, h4]

/-- Nor does a digit. -/
theorem isUnbroken_of_isDigit {c : Char} (h : c.isDigit = true) : isUnbroken c = true := by
  have hne : ∀ d : Char, d.isDigit = false → (c == d) = false := by
    intro d hd
    rw [beq_eq_false_iff_ne]
    rintro rfl
    exact absurd (h.symm.trans hd) (by decide)
  have hblank : Text.isBlank c = false := by
    simp only [Char.isDigit, Bool.and_eq_true, decide_eq_true_eq, ge_iff_le,
      UInt32.le_iff_toNat_le] at h
    have h9 : '9'.val.toNat = 57 := rfl
    have h0 : '0'.val.toNat = 48 := rfl
    have hn : c.toNat = c.val.toNat := rfl
    simp only [Text.isBlank, hn, Bool.or_eq_false_iff, Bool.and_eq_false_iff,
      decide_eq_false_iff_not, beq_eq_false_iff_ne]
    omega
  simp [isUnbroken, Token.isOpening, Token.isClosing, hblank, hne '(' (by decide),
    hne ')' (by decide), hne '[' (by decide), hne ']' (by decide)]

/-- Nor does any character of a mask. -/
theorem isUnbroken_of_mem_maskOf {n : Nat} : ∀ c ∈ maskOf n, isUnbroken c = true := by
  intro c h
  have hc : c = border ∨ c ∈ Nat.toDigits 10 n := by
    simpa [maskOf, or_comm, or_assoc] using h
  rcases hc with rfl | hc
  · decide
  · exact isUnbroken_of_isDigit (isDigit_of_mem_toDigits hc)

/-- So a word that stands for a piece has nothing in it that would end it. -/
theorem Spells.isUnbroken {m : Masked} {word source : List Char} (h : Spells m word source) :
    ∀ c ∈ word, isUnbroken c = true := by
  induction h with
  | nil => simp
  | char c hc _ ih =>
    intro d hd
    rcases List.mem_cons.mp hd with rfl | hd
    · exact isUnbroken_of_isPlain hc
    · exact ih d hd
  | literal i _ _ _ _ ih =>
    intro d hd
    rcases List.mem_append.mp hd with hd | hd
    · exact isUnbroken_of_mem_maskOf d hd
    · exact ih d hd

/-- What does not end a word goes on with it. -/
theorem readFrom_append {word : List Char} (h : ∀ c ∈ word, isUnbroken c = true) :
    ∀ (pos : Nat) (pending rest : List Char),
      Token.readFrom pos pending (word ++ rest) =
        Token.readFrom (pos + word.length) (pending ++ word) rest := by
  induction word with
  | nil =>
    intro pos pending rest
    rw [List.append_nil]
    rfl
  | cons c word ih =>
    intro pos pending rest
    have hc := h c List.mem_cons_self
    simp only [Masked.isUnbroken, Bool.and_eq_true, Bool.not_eq_true'] at hc
    obtain ⟨⟨ho, hcl⟩, hb⟩ := hc
    rw [List.cons_append, Token.readFrom, ho, hcl, hb,
      if_neg (by decide), if_neg (by decide), if_neg (by decide),
      ih (fun d hd => h d (List.mem_cons_of_mem c hd)), List.length_cons, List.append_assoc,
      Nat.add_assoc, Nat.add_comm 1]
    rfl

/-- The words among the tokens of a text without U+0000 stand for pieces of it, one that is pending
    included. -/
theorem spells_of_mem_readFrom (m : Masked) (n : Nat) (cs : List Char) :
    border ∉ cs → m.Holds n (maskFrom n cs).2.1 →
      ∀ (pos : Nat) (pending source : List Char), Spells m pending source →
        ∀ word start, .word word start ∈ Token.readFrom pos pending (maskFrom n cs).1 →
          ∃ source, Spells m word source := by
  -- a pending word that is given out is the only word there
  have hflush : ∀ {pending source word : List Char} {pos start : Nat}, Spells m pending source →
      .word word start ∈ Token.flush pending pos → ∃ source, Spells m word source := by
    intro pending source word pos start hpending hmem
    unfold Token.flush at hmem
    split at hmem
    · exact absurd hmem (by simp)
    · obtain ⟨rfl, -⟩ := by simpa using hmem
      exact ⟨source, hpending⟩
  fun_induction maskFrom n cs with
  | case1 n =>
    intro _ _ pos pending source hpending word start hmem
    exact hflush hpending hmem
  | case2 n rest hclose =>
    intro _ _ pos pending source hpending word start hmem
    exact hflush hpending hmem
  | case3 n rest body after hclose _ chars lits unclosed heq ih =>
    intro hborder hholds pos pending source hpending word start hmem
    obtain ⟨hlit, hholds⟩ := holds_cons.mp hholds
    rw [Text.eq_of_closeQuote hclose] at hborder
    simp only [List.mem_cons, List.mem_append, not_or] at hborder
    rw [readFrom_append isUnbroken_of_mem_maskOf] at hmem
    rw [heq] at ih
    -- the mask goes on with the pending word, and so does the literal with its source
    have hspell : Spells m (maskOf n) ('"' :: body ++ ['"']) := by
      have := Spells.literal n hlit (Text.closeQuote_body hclose) hborder.2.1 .nil
      rwa [List.append_nil] at this
    exact ih hborder.2.2.2 hholds _ _ _ (hpending.append hspell) word start hmem
  | case4 n c rest hc chars lits unclosed heq ih =>
    intro hborder hholds pos pending source hpending word start hmem
    simp only [List.mem_cons, not_or] at hborder
    rw [heq] at ih
    rw [Token.readFrom] at hmem
    -- brackets and blanks end the pending word; what is left goes on with it
    by_cases ho : Token.isOpening c = true
    · rw [if_pos ho] at hmem
      rcases List.mem_append.mp hmem with hmem | hmem
      · exact hflush hpending hmem
      · exact ih hborder.2 hholds _ [] [] .nil word start (by simpa using hmem)
    rw [if_neg ho] at hmem
    by_cases hcl : Token.isClosing c = true
    · rw [if_pos hcl] at hmem
      rcases List.mem_append.mp hmem with hmem | hmem
      · exact hflush hpending hmem
      · exact ih hborder.2 hholds _ [] [] .nil word start (by simpa using hmem)
    rw [if_neg hcl] at hmem
    by_cases hb : Text.isBlank c = true
    · rw [if_pos hb] at hmem
      rcases List.mem_append.mp hmem with hmem | hmem
      · exact hflush hpending hmem
      · exact ih hborder.2 hholds _ [] [] .nil word start hmem
    rw [if_neg hb] at hmem
    have hplain : isPlain c = true := by
      simp only [Token.isOpening, Token.isClosing, Bool.or_eq_true, beq_iff_eq, not_or] at ho hcl
      simp [isPlain, Operators.breaksWord, hb, ho, hcl, hc, Ne.symm hborder.1]
    exact ih hborder.2 hholds _ _ _ (hpending.append (.char c hplain .nil)) word start hmem

/-- The words of a text without U+0000 stand for pieces of it. -/
theorem spells_of_mem_readAll {cs : List Char} (h : border ∉ cs) :
    ∀ word start, .word word start ∈ Token.readAll (mask cs).1 →
      ∃ source, Spells (mask cs).1 word source :=
  spells_of_mem_readFrom (mask cs).1 0 cs h (holds_mask cs) 0 [] [] .nil

/-- A word is one token if a bracket, a blank or the end of the text follows it. -/
theorem readFrom_word {word : List Char} (h : ∀ c ∈ word, isUnbroken c = true) (hne : word ≠ [])
    {rest : List Char} (hrest : ∀ c ∈ rest.head?, isUnbroken c = false) (pos : Nat) :
    Token.readFrom pos [] (word ++ rest) =
      .word word pos :: Token.readFrom (pos + word.length) [] rest := by
  have hflush : Token.flush word (pos + word.length) = [.word word pos] := by
    simp [Token.flush, hne]
  -- what follows ends the word before it does anything else
  rw [readFrom_append h, List.nil_append]
  cases rest with
  | nil => rw [Token.readFrom, hflush, Token.readFrom]; rfl
  | cons c rest =>
    have hc := hrest c rfl
    rw [Token.readFrom, Token.readFrom, hflush]
    by_cases ho : Token.isOpening c = true
    · rw [if_pos ho, if_pos ho]
      rfl
    by_cases hcl : Token.isClosing c = true
    · rw [if_neg ho, if_neg ho, if_pos hcl, if_pos hcl]
      rfl
    have hb : Text.isBlank c = true := by simpa [isUnbroken, ho, hcl] using hc
    rw [if_neg ho, if_neg ho, if_neg hcl, if_neg hcl, if_pos hb, if_pos hb]
    rfl

end Masked

end Scim
