import Scim.Patch.Path
import Scim.Proofs.Filter.Brackets

/-!
  # Brackets are matched alike by all who look for them

  One check of a text keeps a stack of both kinds of brackets (`unbalanced?`).  Those who rely on it
  keep less: the search for the end of a group and the cutting at keywords count the depth of
  tokens of either kind, and the reader of paths counts square brackets only.

    * Among balanced tokens an opening bracket begins a group (`Balanced.exists_group`), for the
      tokens before it leave nothing open but what is on the stack; so the search ends where the
      group does (`Balanced.closeIndex?_eq`).
    * Cutting at a keyword gives balanced pieces, joined by keywords (`Joins`), and none of them has
      the keyword outside of all brackets (`Uncut.not_keyword`).
    * The crux for the reader of paths is `endsAbove_of_balanced`: the depth it counts is the
      number of square brackets on the stack above the first one.  While that one is open the depth is
      not zero, so it never counts down from zero, and it comes to the end where the stack does.
-/

namespace Scim

namespace Token

variable {keyword : List Char} {before rest tokens : List Token} {o : Char} {i a : Nat}

/-! ## Groups -/

/-- Tokens after others that close a stack do close some stack. -/
theorem exists_closes_of_append (before : List Token) : ∀ {stack : List Char},
    Closes stack (before ++ rest) → ∃ stack', Closes stack' rest := by
  -- on the tokens before: each one leaves some stack that the others close
  induction before with
  | nil => exact fun {stack} h => ⟨stack, h⟩
  | cons t before ih =>
    intro stack h
    cases t with
    | word chars start => exact ih (closes_word.mp h)
    | opening o i => exact ih (closes_opening.mp h)
    | closing c j =>
      obtain ⟨_, _, -, -, h⟩ := closes_closing.mp h
      exact ih h

/-- An opening bracket among balanced tokens begins a group. -/
theorem Balanced.exists_group (h : Balanced (before ++ .opening o a :: rest)) :
    ∃ inner c b after, rest = inner ++ .closing c b :: after ∧ Pairs o c ∧ Balanced inner := by
  have hcloses : Closes [] (before ++ .opening o a :: rest) := h
  obtain ⟨stack, hstack⟩ := exists_closes_of_append before hcloses
  obtain ⟨inner, c, b, after, hrest, hpair, hinner, -⟩ := closes_opening.mp hstack
  exact ⟨inner, c, b, after, hrest, hpair, hinner⟩

/-- The search for the end of a group finds it. -/
theorem closeIndex?_group {inner : List Token} (h : Balanced inner) (before : List Token)
    (o c : Char) (a b : Nat) (after : List Token) :
    closeIndex? (before ++ .opening o a :: (inner ++ .closing c b :: after)) before.length =
      some (before.length + inner.length + 1) := by
  rw [closeIndex?, List.drop_left, closeOffset?_group h, Option.map_some, Option.some.injEq]
  omega

/-- Among balanced tokens every opening bracket is closed by one of its kind, and the tokens between
    the two are balanced. -/
theorem Balanced.closeIndex?_eq (h : Balanced tokens) (hopen : tokens[i]? = some (.opening o a)) :
    ∃ j c b, closeIndex? tokens i = some j ∧ i < j ∧ tokens[j]? = some (.closing c b) ∧
      Pairs o c ∧ Balanced ((tokens.take j).drop (i + 1)) := by
  obtain ⟨hi, hget⟩ := List.getElem?_eq_some_iff.mp hopen
  -- the tokens before the bracket, the bracket, and what follows
  have hcut : tokens = tokens.take i ++ .opening o a :: tokens.drop (i + 1) := by
    rw [← hget, ← List.drop_eq_getElem_cons hi, List.take_append_drop]
  have hlength : (tokens.take i).length = i := by
    rw [List.length_take]
    omega
  generalize tokens.take i = before at hcut hlength
  generalize tokens.drop (i + 1) = rest at hcut
  subst hcut
  obtain ⟨inner, c, b, after, rfl, hpair, hinner⟩ := h.exists_group
  subst hlength
  refine ⟨_, c, b, closeIndex?_group hinner before o c a b after, by omega, ?_, hpair, ?_⟩
  · -- the closing bracket stands behind the inner tokens
    rw [show before.length + inner.length + 1 = before.length + (inner.length + 1) by omega,
      List.getElem?_append_right (by omega), Nat.add_sub_cancel_left, List.getElem?_cons_succ,
      List.getElem?_append_right (by omega), Nat.sub_self]
    rfl
  · -- the tokens between are the inner ones
    have hregroup : before ++ .opening o a :: (inner ++ .closing c b :: after) =
        before ++ [.opening o a] ++ inner ++ .closing c b :: after := by simp
    have hlength : (before ++ [Token.opening o a] ++ inner).length =
        before.length + inner.length + 1 := by
      simp only [List.length_append, List.length_singleton]
      omega
    rw [hregroup, List.take_left' hlength, List.drop_left' (by simp)]
    exact hinner

/-! ## Pieces -/

/-- Pieces with keywords between are the tokens. -/
inductive Joins (keyword : List Char) : List Token → List (List Token) → List Token → Prop
  | last (piece : List Token) : Joins keyword piece [] piece
  | keyword {piece rest : List Token} {t : Token} {pieces : List (List Token)} (first : List Token) :
    isKeyword keyword t = true → Joins keyword piece pieces rest →
    Joins keyword first (piece :: pieces) (first ++ t :: rest)

/-- What is cut at a keyword is joined by it. -/
theorem joins_of_splitAtKeyword {pieces : List (List Token)} : ∀ {depth : Nat}
    {first tokens : List Token}, splitAtKeyword keyword depth tokens = (first, pieces) →
    Joins keyword first pieces tokens := by
  -- on the pieces behind the first, each of which has a keyword before it
  induction pieces with
  | nil =>
    intro depth first tokens h
    rw [eq_of_splitAtKeyword_nil tokens depth first h]
    exact .last first
  | cons piece pieces ih =>
    intro depth first tokens h
    obtain ⟨t, rest, rfl, ht, hrest⟩ := exists_of_splitAtKeyword_cons tokens depth first piece pieces h
    exact .keyword first ht (ih hrest)

/-- In one piece no keyword stands outside of all brackets. -/
theorem Uncut.not_keyword (h : Uncut keyword tokens) {t : Token} (htokens : tokens = before ++ t :: rest)
    (hbefore : Balanced before) : isKeyword keyword t = false := by
  refine Bool.eq_false_iff.mpr fun ht => ?_
  rw [Uncut, htokens, splitAtKeyword_append_keyword hbefore ht, Prod.mk.injEq] at h
  simp at h

/-! ## Characters -/

variable {cs opened stack : List Char}

/-- An opening bracket is put on the stack. -/
theorem unbalanced?_opening {c : Char} (hc : isOpening c = true) (stack cs : List Char) :
    unbalanced? stack (c :: cs) = unbalanced? (c :: stack) cs := by
  rw [unbalanced?.eq_def]
  exact if_pos hc

/-- Any other character that is no bracket leaves the stack as it is. -/
theorem unbalanced?_plain {c : Char} (ho : isOpening c = false) (hc : isClosing c = false)
    (stack cs : List Char) : unbalanced? stack (c :: cs) = unbalanced? stack cs := by
  rw [unbalanced?.eq_def]
  dsimp only
  rw [if_neg (by simp [ho]), if_neg (by simp [hc])]

/-- A closing bracket takes its partner from the stack. -/
theorem unbalanced?_closing {c : Char} (hc : isClosing c = true) :
    unbalanced? stack (c :: cs) = none ↔
      ∃ rest, stack = partner c :: rest ∧ unbalanced? rest cs = none := by
  have ho : isOpening c = false := by
    rcases Bool.or_eq_true_iff.mp hc with h | h <;> rw [beq_iff_eq.mp h] <;> rfl
  rw [unbalanced?.eq_def]
  dsimp only
  rw [if_neg (by simp [ho]), if_pos hc]
  cases stack with
  | nil => simp
  | cons top stack =>
    dsimp only
    by_cases htop : top = partner c
    · rw [if_pos htop, htop]
      simp
    · rw [if_neg htop]
      simp [htop]

/-- What follows a balanced beginning closes the brackets on some stack. -/
theorem exists_unbalanced?_of_append (before : List Char) : ∀ {stack : List Char},
    unbalanced? stack (before ++ cs) = none → ∃ stack', unbalanced? stack' cs = none := by
  induction before with
  | nil => exact fun {stack} h => ⟨stack, h⟩
  | cons c before ih =>
    intro stack h
    rw [List.cons_append] at h
    -- the stack grows, shrinks or stays
    cases ho : isOpening c with
    | true => exact ih ((unbalanced?_opening ho _ _).symm.trans h)
    | false =>
      cases hc : isClosing c with
      | true =>
        obtain ⟨_, -, h⟩ := (unbalanced?_closing hc).mp h
        exact ih h
      | false => exact ih ((unbalanced?_plain ho hc _ _).symm.trans h)

end Token

namespace PatchPath

open Token (unbalanced? isOpening isClosing)

/-! ## The first square bracket -/

/-- The depth that `splitClosed?` has after some characters. -/
def squareDepth (depth : Nat) (cs : List Char) : Nat :=
  cs.foldl (fun depth c => if c = '[' then depth + 1 else if c = ']' then depth - 1 else depth) depth

/-- In front of every closing bracket that is counted, the depth is not zero. -/
def CountsDown (depth : Nat) (cs : List Char) : Prop :=
  ∀ before after, cs = before ++ ']' :: after → 0 < squareDepth depth before

/-- Nothing is counted in no characters. -/
theorem countsDown_nil {depth : Nat} : CountsDown depth [] := by
  intro before after h
  simp at h

/-- One character more in front is counted down from one or more, if the rest is. -/
theorem countsDown_cons {depth : Nat} {c : Char} {cs : List Char} (hzero : c = ']' → 0 < depth)
    (h : CountsDown (squareDepth depth [c]) cs) : CountsDown depth (c :: cs) := by
  intro before after hcs
  cases before with
  | nil => exact hzero (List.cons.inj hcs).1
  | cons d before =>
    obtain ⟨rfl, hrest⟩ := List.cons.inj hcs
    exact h before after hrest

/-- The search passes a character that does not close the first bracket. -/
theorem splitClosed?_cons {depth : Nat} {c : Char} {cs inside after : List Char}
    (hgoes : c = ']' → 1 < depth)
    (h : splitClosed? (squareDepth depth [c]) cs = some (inside, after)) :
    splitClosed? depth (c :: cs) = some (c :: inside, after) := by
  -- the depth comes to zero only from one
  have hstays : ¬(c = ']' ∧ squareDepth depth [c] = 0) := by
    rintro ⟨rfl, hzero⟩
    have hdepth := hgoes rfl
    simp only [squareDepth, List.foldl_cons, List.foldl_nil, if_pos] at hzero
    rw [if_neg (by decide)] at hzero
    omega
  rw [splitClosed?]
  show (if c = ']' ∧ squareDepth depth [c] = 0 then some ([c], cs)
    else (splitClosed? (squareDepth depth [c]) cs).map _) = _
  rw [if_neg hstays, h]
  rfl

/-- Among the characters stands the end of a square bracket, above which `opened` is open, and the
    search comes to it. -/
def EndsAbove (opened cs : List Char) : Prop :=
  ∃ inner after, cs = inner ++ ']' :: after ∧ unbalanced? opened inner = none ∧
    splitClosed? (opened.count '[' + 1) cs = some (inner ++ [']'], after) ∧
    CountsDown (opened.count '[' + 1) (inner ++ [']'])

/-- The search passes a character and goes on behind it with other brackets open. -/
theorem EndsAbove.cons {opened opened' cs : List Char} {c : Char} (h : EndsAbove opened' cs)
    (hdepth : squareDepth (opened.count '[' + 1) [c] = opened'.count '[' + 1)
    (hgoes : c = ']' → 0 < opened.count '[')
    (hopened : ∀ inner, unbalanced? opened' inner = none → unbalanced? opened (c :: inner) = none) :
    EndsAbove opened (c :: cs) := by
  obtain ⟨inner, after, hcs, hinner, hsplit, hcounts⟩ := h
  rw [← hdepth] at hsplit hcounts
  refine ⟨c :: inner, after, by rw [hcs, List.cons_append], hopened inner hinner, ?_, ?_⟩
  · exact splitClosed?_cons (fun hc => by have := hgoes hc; omega) hsplit
  · exact countsDown_cons (fun _ => by omega) hcounts

/-- An opening bracket is passed: it is one more that is open. -/
theorem EndsAbove.opening {opened cs : List Char} {c : Char} (hc : isOpening c = true)
    (h : EndsAbove (c :: opened) cs) : EndsAbove opened (c :: cs) := by
  refine h.cons ?_ ?_ fun inner hinner => ?_
  · rcases Bool.or_eq_true_iff.mp hc with hc | hc <;> rw [beq_iff_eq.mp hc] <;> simp [squareDepth]
  · rintro rfl
    simp [isOpening] at hc
  · rwa [Token.unbalanced?_opening hc]

/-- So is a bracket that closes one above the first. -/
theorem EndsAbove.closing {opened cs : List Char} {c : Char} (hc : isClosing c = true)
    (h : EndsAbove opened cs) : EndsAbove (Token.partner c :: opened) (c :: cs) := by
  -- only a closing square bracket is counted down, and it has a square one above the first to close
  have hkind : c = ')' ∨ c = ']' := by simpa [isClosing] using hc
  refine h.cons ?_ ?_ fun inner hinner => ?_
  · rcases hkind with rfl | rfl <;> simp [squareDepth, Token.partner]
  · rintro rfl
    simp [Token.partner]
  · exact (Token.unbalanced?_closing hc).mpr ⟨opened, rfl, hinner⟩

/-- And so is any other character. -/
theorem EndsAbove.plain {opened cs : List Char} {c : Char} (ho : isOpening c = false)
    (hc : isClosing c = false) (h : EndsAbove opened cs) : EndsAbove opened (c :: cs) := by
  have hopen : c ≠ '[' := by
    rintro rfl
    simp [isOpening] at ho
  have hclose : c ≠ ']' := by
    rintro rfl
    simp [isClosing] at hc
  refine h.cons ?_ (fun heq => absurd heq hclose) fun inner hinner => ?_
  · simp [squareDepth, hopen, hclose]
  · rwa [Token.unbalanced?_plain ho hc]

/-- The bracket itself is closed. -/
theorem endsAbove_nil (cs : List Char) : EndsAbove [] (']' :: cs) :=
  ⟨[], cs, rfl, rfl, by simp [splitClosed?], countsDown_cons (fun _ => by simp) countsDown_nil⟩

/-- The depth counted is the number of square brackets that are open above and with the first one,
    and so the search comes to an end where that one is closed. -/
theorem endsAbove_of_balanced {stack : List Char} (cs : List Char) : ∀ (opened : List Char),
    unbalanced? (opened ++ '[' :: stack) cs = none → EndsAbove opened cs := by
  -- on the characters, for any brackets that are open above the first one
  induction cs with
  | nil =>
    intro opened h
    cases opened <;> simp [unbalanced?] at h
  | cons c cs ih =>
    intro opened h
    cases ho : isOpening c with
    | true =>
      rw [Token.unbalanced?_opening ho] at h
      exact (ih (c :: opened) h).opening ho
    | false =>
      cases hc : isClosing c with
      | true =>
        obtain ⟨rest, hstack, hrest⟩ := (Token.unbalanced?_closing hc).mp h
        cases opened with
        -- none is open above, so this closes the first bracket, which is square
        | nil =>
          obtain ⟨hpartner, -⟩ := List.cons.inj hstack
          obtain rfl : c = ']' := by
            have hkind : c = ')' ∨ c = ']' := by simpa [isClosing] using hc
            refine hkind.resolve_left ?_
            rintro rfl
            exact absurd hpartner (by decide)
          exact endsAbove_nil cs
        -- one above is closed, and the search goes on
        | cons top opened =>
          obtain ⟨rfl, rfl⟩ := List.cons.inj hstack
          exact (ih opened hrest).closing hc
      | false =>
        rw [Token.unbalanced?_plain ho hc] at h
        exact (ih opened h).plain ho hc

/-- A square bracket of a text whose brackets match is closed where the search says, and between the
    two brackets match. -/
theorem exists_splitClosed? {cs name rest : List Char} (h : unbalanced? [] cs = none)
    (hcs : cs = name ++ '[' :: rest) : ∃ inner after, rest = inner ++ ']' :: after ∧
      unbalanced? [] inner = none ∧
      splitClosed? 0 ('[' :: rest) = some ('[' :: (inner ++ [']']), after) ∧
      CountsDown 0 ('[' :: (inner ++ [']'])) := by
  rw [hcs] at h
  -- whatever the name leaves open lies below the bracket
  obtain ⟨stack, hstack⟩ := Token.exists_unbalanced?_of_append name h
  rw [Token.unbalanced?_opening rfl] at hstack
  obtain ⟨inner, after, hrest, hinner, hsplit, hcounts⟩ := endsAbove_of_balanced rest [] hstack
  have hopen : '[' = ']' → False := by decide
  exact ⟨inner, after, hrest, hinner, splitClosed?_cons (fun hc => (hopen hc).elim) hsplit,
    countsDown_cons (fun hc => (hopen hc).elim) hcounts⟩

/-- A text is cut before its first square bracket. -/
theorem cut_at_square {name : List Char} (h : '[' ∉ name) (bracketed : List Char) :
    (name ++ '[' :: bracketed).takeWhile (· != '[') = name ∧
      (name ++ '[' :: bracketed).dropWhile (· != '[') = '[' :: bracketed := by
  have hname : ∀ c ∈ name, (c != '[') = true := by
    rintro c hc
    rw [bne_iff_ne]
    rintro rfl
    exact h hc
  rw [List.takeWhile_append_of_pos hname, List.dropWhile_append_of_pos hname]
  simp

/-- A path with a square bracket is read behind the bracket that closes it. -/
theorem read_eq_of_square (catalog : Catalog) (operators : Operators) {input name rest : List Char}
    (hclosed : (Masked.mask input).2 = none)
    (hbalanced : unbalanced? [] (Masked.mask input).1.chars = none)
    (hchars : (Masked.mask input).1.chars = name ++ '[' :: rest) (hname : '[' ∉ name) :
    ∃ selection after, splitClosed? 0 ('[' :: rest) = some (selection, after) ∧
      read catalog operators input = (do
        let sub ← readSub (Masked.mask input).1 after
        let attr ← (Reference.parse catalog ((Masked.mask input).1.unmaskText name)).mapError ([·])
        let filter ← Filter.read catalog operators ((Masked.mask input).1.unmask (name ++ selection))
        (make attr (some filter) sub).mapError ([·])) := by
  obtain ⟨inner, after, -, -, hsplit, -⟩ := exists_splitClosed? hbalanced hchars
  refine ⟨_, after, hsplit, ?_⟩
  obtain ⟨htake, hdrop⟩ := cut_at_square hname rest
  rw [← hchars] at htake hdrop
  unfold read
  simp only [hclosed, hbalanced, htake, hdrop, readSelecting, hsplit]

/-! ## All of them -/

/-- What is found in a text whose brackets match. -/
structure Matched (m : Masked) : Prop where
  balanced : Token.Balanced (Token.readAll m)
  /-- An opening bracket is closed by one of its kind, and the tokens between the two are balanced. -/
  closed : ∀ i o a, (Token.readAll m)[i]? = some (.opening o a) →
    ∃ j c b, Token.closeIndex? (Token.readAll m) i = some j ∧ i < j ∧
      (Token.readAll m)[j]? = some (.closing c b) ∧ Token.Pairs o c ∧
      Token.Balanced (((Token.readAll m).take j).drop (i + 1))
  /-- The first square bracket is closed where the search says, which counts down but from one or
      more. -/
  square : ∀ name rest, m.chars = name ++ '[' :: rest → '[' ∉ name →
    ∃ inner after, rest = inner ++ ']' :: after ∧ unbalanced? [] inner = none ∧
      splitClosed? 0 ('[' :: rest) = some ('[' :: (inner ++ [']']), after) ∧
      CountsDown 0 ('[' :: (inner ++ [']']))

/-- How balanced tokens are cut at a keyword. -/
structure Cuts (keyword : List Char) (tokens first : List Token) (more : List (List Token)) :
    Prop where
  joined : Token.Joins keyword first more tokens
  balanced : ∀ piece ∈ first :: more, Token.Balanced piece
  /-- What stands behind balanced tokens stands outside of all brackets. -/
  uncut : ∀ piece ∈ first :: more, ∀ before t after, piece = before ++ t :: after →
    Token.Balanced before → Token.isKeyword keyword t = false

/-- Where brackets match, the end of a group, the pieces between keywords and the end of a selection
    are found, and no path is refused for a square bracket that is not closed. -/
theorem brackets_matched_alike :
    (∀ m : Masked, unbalanced? [] m.chars = none → Matched m) ∧
      (∀ keyword tokens, Token.Balanced tokens →
        Cuts keyword tokens (Token.splitAtKeyword keyword 0 tokens).1
          (Token.splitAtKeyword keyword 0 tokens).2) ∧
      ∀ catalog operators input name rest, (Masked.mask input).2 = none →
        unbalanced? [] (Masked.mask input).1.chars = none →
        (Masked.mask input).1.chars = name ++ '[' :: rest → '[' ∉ name →
        ∃ selection after, splitClosed? 0 ('[' :: rest) = some (selection, after) ∧
          read catalog operators input = (do
            let sub ← readSub (Masked.mask input).1 after
            let attr ←
              (Reference.parse catalog ((Masked.mask input).1.unmaskText name)).mapError ([·])
            let filter ←
              Filter.read catalog operators ((Masked.mask input).1.unmask (name ++ selection))
            (make attr (some filter) sub).mapError ([·])) := by
  refine ⟨fun m hm => ?_, fun keyword tokens h => ?_, ?_⟩
  · have hbalanced := (Token.unbalanced?_eq_none_iff m).mp hm
    exact ⟨hbalanced, fun _ _ _ hopen => hbalanced.closeIndex?_eq hopen,
      fun _ _ hchars _ => exists_splitClosed? hm hchars⟩
  · exact ⟨Token.joins_of_splitAtKeyword rfl, h.pieces keyword, fun piece hpiece _ _ _ heq hbefore =>
      (h.uncut_pieces (.inl rfl) piece hpiece).not_keyword heq hbefore⟩
  · exact fun catalog operators _ _ _ hclosed hbalanced hchars hname =>
      read_eq_of_square catalog operators hclosed hbalanced hchars hname

/-- Brackets of both kinds, one more in a literal, and a keyword inside of round brackets and one
    between them. -/
def nestedPath : List Char := "emails[(type eq \"]\" or kind pr) or (a pr)].value".toList

/-- Its tokens. -/
def nestedTokens : List Token := Token.readAll (Masked.mask nestedPath).1

/-- The square bracket is the second token and is closed by the last but one.  The tokens between are
    two pieces, and the sub-attribute stands behind. -/
theorem brackets_matched_alike_nestedPath :
    (Masked.mask nestedPath).2 = none ∧ unbalanced? [] (Masked.mask nestedPath).1.chars = none ∧
      Token.closeIndex? nestedTokens 1 = some 15 ∧
      Token.Balanced ((nestedTokens.take 15).drop 2) ∧
      (∃ first second, Cuts "or".toList ((nestedTokens.take 15).drop 2) first [second]) ∧
      ∃ selection, splitClosed? 0 ('[' :: (Masked.mask nestedPath).1.chars.drop 7) =
        some (selection, ".value".toList) := by
  have hclosed : (Masked.mask nestedPath).2 = none := by decide +kernel
  have hbalanced : unbalanced? [] (Masked.mask nestedPath).1.chars = none := by decide +kernel
  have hopen : (Token.readAll (Masked.mask nestedPath).1)[1]? = some (.opening '[' 6) := by
    decide +kernel
  have hend : Token.closeIndex? (Token.readAll (Masked.mask nestedPath).1) 1 = some 15 := by
    decide +kernel
  obtain ⟨hmatched, hcut, hread⟩ := brackets_matched_alike
  obtain ⟨j, c, b, hj, -, -, -, hinner⟩ := (hmatched _ hbalanced).closed 1 '[' 6 hopen
  obtain rfl : 15 = j := Option.some.inj (hend.symm.trans hj)
  refine ⟨hclosed, hbalanced, hend, hinner, ?_, ?_⟩
  · -- cut at the keyword that stands between the groups only
    have hpieces := hcut "or".toList _ hinner
    have hcount : (Token.splitAtKeyword "or".toList 0
        (((Token.readAll (Masked.mask nestedPath).1).take 15).drop (1 + 1))).2.length = 1 := by
      decide +kernel
    obtain ⟨second, hsecond⟩ := List.length_eq_one_iff.mp hcount
    rw [hsecond] at hpieces
    exact ⟨_, second, hpieces⟩
  · have hchars : (Masked.mask nestedPath).1.chars =
        "emails".toList ++ '[' :: (Masked.mask nestedPath).1.chars.drop 7 := by decide +kernel
    have hname : '[' ∉ "emails".toList := by decide +kernel
    have hafter : (splitClosed? 0 ('[' :: (Masked.mask nestedPath).1.chars.drop 7)).map (·.2) =
        some ".value".toList := by
      decide +kernel
    obtain ⟨selection, after, hsplit, -⟩ :=
      hread .empty .standard nestedPath "emails".toList _ hclosed hbalanced hchars hname
    rw [hsplit] at hafter
    exact ⟨selection, hsplit.trans (by rw [← Option.some.inj hafter])⟩

end PatchPath

end Scim
