import Scim.Filter.Token

/-!
  # Brackets that match

  The functions that take tokens apart (`closeIndex?`, `splitAtKeyword`) count depth only.  They do
  what they should on tokens whose brackets match, and this is what the check of the characters
  (`unbalanced?`) makes sure of.

    * `Balanced` says of tokens that their brackets match, by their structure;
    * `Closes` generalizes it to the tokens that follow some brackets already open, and is the
      invariant that relates the stack of `unbalanced?` to `Balanced` (`unbalanced?_eq_none_iff`);
    * on balanced tokens an opening bracket is closed where its group ends, and cutting at a keyword
      looks into no group.
-/

namespace Scim.Token

/-! ## Matching brackets -/

/-- Which bracket closes which. -/
inductive Pairs : Char → Char → Prop
  | round : Pairs '(' ')'
  | square : Pairs '[' ']'

/-- A bracket closes its partner, and a partner is closed by it only. -/
theorem pairs_iff {o c : Char} : Pairs o c ↔ isClosing c = true ∧ o = partner c := by
  constructor
  · rintro (_ | _) <;> exact ⟨rfl, rfl⟩
  · rintro ⟨hc, rfl⟩
    rcases Bool.or_eq_true_iff.mp hc with h | h
    · rw [beq_iff_eq.mp h]
      exact .round
    · rw [beq_iff_eq.mp h]
      exact .square

/-- Every bracket closes the last one that is open, and all are closed at the end. -/
inductive Balanced : List Token → Prop
  | nil : Balanced []
  | word {rest : List Token} (chars : List Char) (start : Nat) :
      Balanced rest → Balanced (.word chars start :: rest)
  | group {inner rest : List Token} {o c : Char} (i j : Nat) :
      Pairs o c → Balanced inner → Balanced rest →
      Balanced (.opening o i :: (inner ++ .closing c j :: rest))

/-- The tokens close the brackets on the stack one after the other; before and between them and
    after the last one, brackets match. -/
def Closes : List Char → List Token → Prop
  | [], tokens => Balanced tokens
  | o :: stack, tokens => ∃ inner c j rest, tokens = inner ++ .closing c j :: rest ∧
      Pairs o c ∧ Balanced inner ∧ Closes stack rest

/-- Where there is nothing more, nothing may be open. -/
theorem closes_nil {stack : List Char} : Closes stack [] ↔ stack = [] := by
  cases stack with
  | nil => exact ⟨fun _ => rfl, fun _ => Balanced.nil⟩
  | cons o stack =>
    constructor
    · rintro ⟨inner, c, j, rest, h, -⟩
      exact absurd h (by simp)
    · exact fun h => absurd h (by simp)

/-- A word leaves open what is open. -/
theorem closes_word {stack : List Char} {chars : List Char} {start : Nat} {tokens : List Token} :
    Closes stack (.word chars start :: tokens) ↔ Closes stack tokens := by
  cases stack with
  | nil =>
    constructor
    · intro h
      cases h with
      | word _ _ h => exact h
    · exact Balanced.word chars start
  | cons o stack =>
    constructor
    · rintro ⟨inner, c, j, rest, h, hp, hin, hrest⟩
      cases hin with
      | nil => exact absurd h (by simp)
      | word chars' start' hin =>
        simp only [List.cons_append, List.cons.injEq] at h
        exact ⟨_, c, j, rest, h.2, hp, hin, hrest⟩
      | group => exact absurd h (by simp)
    · rintro ⟨inner, c, j, rest, rfl, hp, hin, hrest⟩
      exact ⟨_, c, j, rest, rfl, hp, hin.word chars start, hrest⟩

/-- An opening bracket is one more to be closed, before the others. -/
theorem closes_opening {stack : List Char} {o : Char} {i : Nat} {tokens : List Token} :
    Closes stack (.opening o i :: tokens) ↔ Closes (o :: stack) tokens := by
  cases stack with
  | nil =>
    constructor
    · intro h
      cases h with
      | group _ j hp hin hrest => exact ⟨_, _, j, _, rfl, hp, hin, hrest⟩
    · rintro ⟨inner, c, j, rest, rfl, hp, hin, hrest⟩
      exact Balanced.group i j hp hin hrest
  | cons o' stack =>
    constructor
    · -- what closes `o'` comes after a balanced part, and that part starts with `o`
      rintro ⟨before, c', j', rest', h, hp', hbefore, hrest'⟩
      cases hbefore with
      | nil => exact absurd h (by simp)
      | word => exact absurd h (by simp)
      | @group inner rest _ c i' j hp hin hrest =>
        simp only [List.cons_append, List.append_assoc, List.cons.injEq, opening.injEq] at h
        obtain ⟨⟨rfl, -⟩, h⟩ := h
        exact ⟨inner, c, j, rest ++ .closing c' j' :: rest', h, hp, hin,
          rest, c', j', rest', rfl, hp', hrest, hrest'⟩
    · rintro ⟨inner, c, j, rest, rfl, hp, hin, before, c', j', rest', rfl, hp', hbefore, hrest'⟩
      exact ⟨.opening o i :: (inner ++ .closing c j :: before), c', j', rest', by simp, hp',
        Balanced.group i j hp hin hbefore, hrest'⟩

/-- A closing bracket takes the last one that is open from the stack. -/
theorem closes_closing {stack : List Char} {c : Char} {j : Nat} {tokens : List Token} :
    Closes stack (.closing c j :: tokens) ↔
      ∃ o rest, stack = o :: rest ∧ Pairs o c ∧ Closes rest tokens := by
  cases stack with
  | nil =>
    constructor
    · intro h
      cases h
    · rintro ⟨o, rest, h, -⟩
      exact absurd h (by simp)
  | cons o stack =>
    constructor
    · -- balanced tokens do not begin with a closing bracket, so nothing stands before it
      rintro ⟨inner, c', j', rest, h, hp, hin, hrest⟩
      cases hin with
      | nil =>
        simp only [List.nil_append, List.cons.injEq, closing.injEq] at h
        obtain ⟨⟨rfl, -⟩, rfl⟩ := h
        exact ⟨o, stack, rfl, hp, hrest⟩
      | word => exact absurd h (by simp)
      | group => exact absurd h (by simp)
    · rintro ⟨o', rest, h, hp, hrest⟩
      simp only [List.cons.injEq] at h
      obtain ⟨rfl, rfl⟩ := h
      exact ⟨[], c, j, tokens, rfl, hp, Balanced.nil, hrest⟩

/-! ## The check of the characters -/

/-- A pending word leaves open what is open. -/
theorem closes_flush {stack : List Char} {pending : List Char} {stop : Nat} {tokens : List Token} :
    Closes stack (flush pending stop ++ tokens) ↔ Closes stack tokens := by
  unfold flush
  split
  · rfl
  · exact closes_word

/-- The stack of the check is the stack of brackets that the tokens to come have to close. -/
theorem unbalanced?_eq_none_iff_closes (cs : List Char) :
    ∀ (stack : List Char) (pos : Nat) (pending : List Char),
      unbalanced? stack cs = none ↔ Closes stack (readFrom pos pending cs) := by
  induction cs with
  | nil =>
    intro stack pos pending
    -- at the end nothing may be open; a pending word closes nothing
    rw [unbalanced?, readFrom, ← List.append_nil (flush pending pos), closes_flush, closes_nil,
      List.head?_eq_none_iff]
  | cons c rest ih =>
    intro stack pos pending
    unfold unbalanced? readFrom
    by_cases ho : isOpening c = true
    · -- an opening bracket goes on the stack on either side
      rw [if_pos ho, if_pos ho, closes_flush, closes_opening]
      exact ih (c :: stack) (pos + 1) []
    · rw [if_neg ho, if_neg ho]
      by_cases hc : isClosing c = true
      · rw [if_pos hc, if_pos hc, closes_flush, closes_closing]
        cases stack with
        | nil => simp
        | cons top stack =>
          -- the bracket must be the partner of the one opened last
          simp only [List.cons.injEq, pairs_iff, hc, true_and]
          by_cases ht : top = partner c
          · rw [if_pos ht, ih stack (pos + 1) []]
            exact ⟨fun h => ⟨top, stack, ⟨rfl, rfl⟩, ht, h⟩, fun ⟨_, _, ⟨_, hs⟩, _, h⟩ => hs ▸ h⟩
          · rw [if_neg ht]
            exact ⟨fun h => absurd h (by simp), fun ⟨_, _, ⟨ht', _⟩, hp, _⟩ => absurd (ht' ▸ hp) ht⟩
      · rw [if_neg hc, if_neg hc]
        by_cases hb : Text.isBlank c = true
        · rw [if_pos hb, closes_flush]
          exact ih stack (pos + 1) []
        · rw [if_neg hb]
          exact ih stack (pos + 1) (pending ++ [c])

/-- The check accepts a text if and only if the brackets among its tokens match. -/
theorem unbalanced?_eq_none_iff (m : Masked) :
    unbalanced? [] m.chars = none ↔ Balanced (readAll m) :=
  unbalanced?_eq_none_iff_closes m.chars [] 0 []

/-! ## Where a group ends -/

/-- Inside of a bracket the search for its end passes over balanced tokens. -/
theorem closeOffset?_append {inner : List Token} (h : Balanced inner) :
    ∀ (depth : Nat) (rest : List Token),
      closeOffset? (depth + 1) (inner ++ rest) =
        (closeOffset? (depth + 1) rest).map (· + inner.length) := by
  induction h with
  | nil =>
    intro depth rest
    simp
  | @word inner chars start _ ih =>
    intro depth rest
    rw [List.cons_append, closeOffset?, ih depth rest, Option.map_map]
    rfl
  | @group inner more o c i j _ _ _ ih ih' =>
    intro depth rest
    -- one level down for the contents, and up again for what follows the group
    rw [List.cons_append, List.append_assoc, List.cons_append, closeOffset?,
      ih (depth + 1) _, closeOffset?, if_neg (by omega), show depth + 1 + 1 - 1 = depth + 1 from rfl,
      ih' depth rest]
    simp only [Option.map_map]
    congr 1
    funext n
    simp only [Function.comp_apply, List.length_cons, List.length_append]
    omega

/-- A bracket is closed by the token after its balanced contents. -/
theorem closeOffset?_group {inner : List Token} (h : Balanced inner) (o c : Char) (i j : Nat)
    (rest : List Token) :
    closeOffset? 0 (.opening o i :: (inner ++ .closing c j :: rest)) = some (inner.length + 1) := by
  rw [closeOffset?, closeOffset?_append h 0 _, closeOffset?, if_pos rfl]
  simp

/-- The bracket after the tokens `before` is closed by the last token exactly where its group ends
    the tokens. -/
theorem closedByLast_group {inner : List Token} (h : Balanced inner) (before : List Token)
    (o c : Char) (i j : Nat) (rest : List Token) :
    closedByLast (before ++ .opening o i :: (inner ++ .closing c j :: rest)) before.length = true ↔
      rest = [] := by
  unfold closedByLast closeIndex?
  rw [List.drop_left, closeOffset?_group h o c i j rest]
  simp only [Option.map_some, List.length_append, List.length_cons, beq_iff_eq, Option.some.injEq]
  rw [← List.length_eq_zero_iff]
  omega

/-! ## Cutting at keywords -/

/-- Whether no keyword stands outside of groups, so that the tokens are one piece. -/
def Uncut (keyword : List Char) (tokens : List Token) : Prop :=
  splitAtKeyword keyword 0 tokens = (tokens, [])

/-- Inside of a bracket nothing is cut off. -/
theorem splitAtKeyword_append_of_depth {keyword : List Char} {inner : List Token}
    (h : Balanced inner) : ∀ (depth : Nat) (rest : List Token),
      splitAtKeyword keyword (depth + 1) (inner ++ rest) =
        (inner ++ (splitAtKeyword keyword (depth + 1) rest).1,
          (splitAtKeyword keyword (depth + 1) rest).2) := by
  induction h with
  | nil =>
    intro depth rest
    rfl
  | @word inner chars start _ ih =>
    intro depth rest
    rw [List.cons_append, splitAtKeyword, if_neg (by omega), depthAfter, ih depth rest]
    rfl
  | @group inner more o c i j _ _ _ ih ih' =>
    intro depth rest
    rw [List.cons_append, List.append_assoc, List.cons_append, splitAtKeyword,
      if_neg (by omega), depthAfter, ih (depth + 1) _, splitAtKeyword, if_neg (by omega), depthAfter,
      show depth + 1 + 1 - 1 = depth + 1 from rfl, ih' depth rest]
    simp

/-- A group belongs to one piece. -/
theorem splitAtKeyword_group {keyword : List Char} {inner : List Token} (h : Balanced inner)
    (o c : Char) (i j : Nat) (rest : List Token) :
    splitAtKeyword keyword 0 (.opening o i :: (inner ++ .closing c j :: rest)) =
      (.opening o i :: (inner ++ .closing c j :: (splitAtKeyword keyword 0 rest).1),
        (splitAtKeyword keyword 0 rest).2) := by
  rw [splitAtKeyword, if_neg (by simp [isKeyword]), depthAfter, splitAtKeyword_append_of_depth h 0 _,
    splitAtKeyword, if_neg (by omega), depthAfter]

/-- A word that is not the keyword belongs to the first piece. -/
theorem splitAtKeyword_word {keyword chars : List Char} {start : Nat} {rest : List Token}
    (h : isKeyword keyword (.word chars start) = false) :
    splitAtKeyword keyword 0 (.word chars start :: rest) =
      (.word chars start :: (splitAtKeyword keyword 0 rest).1,
        (splitAtKeyword keyword 0 rest).2) := by
  rw [splitAtKeyword, if_neg (by simp [h]), depthAfter]

/-- The keyword ends the first piece. -/
theorem splitAtKeyword_keyword {keyword : List Char} {t : Token} {rest : List Token}
    (h : isKeyword keyword t = true) :
    splitAtKeyword keyword 0 (t :: rest) =
      ([], (splitAtKeyword keyword 0 rest).1 :: (splitAtKeyword keyword 0 rest).2) := by
  rw [splitAtKeyword, if_pos ⟨rfl, h⟩]

theorem uncut_nil (keyword : List Char) : Uncut keyword [] := rfl

/-- A word does not cut tokens unless it is the keyword. -/
theorem uncut_word {keyword chars : List Char} {start : Nat} {rest : List Token} :
    Uncut keyword (.word chars start :: rest) ↔
      isKeyword keyword (.word chars start) = false ∧ Uncut keyword rest := by
  unfold Uncut
  cases hk : isKeyword keyword (.word chars start) with
  | true =>
    rw [splitAtKeyword_keyword hk]
    simp
  | false =>
    rw [splitAtKeyword_word hk]
    simp [Prod.ext_iff]

/-- A group never cuts tokens, whatever stands in it. -/
theorem uncut_group {keyword : List Char} {inner : List Token} (h : Balanced inner) {o c : Char}
    {i j : Nat} {rest : List Token} :
    Uncut keyword (.opening o i :: (inner ++ .closing c j :: rest)) ↔ Uncut keyword rest := by
  unfold Uncut
  rw [splitAtKeyword_group h]
  simp [Prod.ext_iff]

/-- Balanced tokens without the keyword become the beginning of the first piece. -/
theorem splitAtKeyword_append_of_uncut {keyword : List Char} {tokens : List Token}
    (h : Balanced tokens) : Uncut keyword tokens → ∀ rest : List Token,
      splitAtKeyword keyword 0 (tokens ++ rest) =
        (tokens ++ (splitAtKeyword keyword 0 rest).1, (splitAtKeyword keyword 0 rest).2) := by
  induction h with
  | nil =>
    intro _ rest
    rfl
  | @word tokens chars start _ ih =>
    intro hu rest
    obtain ⟨hk, hu⟩ := uncut_word.mp hu
    rw [List.cons_append, splitAtKeyword_word hk, ih hu rest]
    rfl
  | @group inner more o c i j _ hin _ _ ih' =>
    intro hu rest
    rw [List.cons_append, List.append_assoc, List.cons_append, splitAtKeyword_group hin,
      ih' ((uncut_group hin).mp hu) rest]
    simp

/-- Tokens without the keyword stay so when others without it are appended. -/
theorem Uncut.append {keyword : List Char} {a b : List Token} (hb : Balanced a)
    (ha : Uncut keyword a) (h : Uncut keyword b) : Uncut keyword (a ++ b) := by
  unfold Uncut at h ⊢
  rw [splitAtKeyword_append_of_uncut hb ha, h]

/-- What follows a keyword outside all groups is cut on its own. -/
theorem splitAtKeyword_append_keyword {keyword : List Char} {tokens : List Token} {t : Token}
    (h : Balanced tokens) (ht : isKeyword keyword t = true) (rest : List Token) :
    splitAtKeyword keyword 0 (tokens ++ t :: rest) =
      ((splitAtKeyword keyword 0 tokens).1,
        (splitAtKeyword keyword 0 tokens).2 ++
          (splitAtKeyword keyword 0 rest).1 :: (splitAtKeyword keyword 0 rest).2) := by
  induction h with
  | nil => exact splitAtKeyword_keyword ht
  | @word tokens chars start _ ih =>
    -- an earlier keyword ends the first piece, with or without the tokens behind
    cases hk : isKeyword keyword (.word chars start) with
    | true =>
      rw [List.cons_append, splitAtKeyword_keyword hk, splitAtKeyword_keyword hk, ih]
      rfl
    | false => rw [List.cons_append, splitAtKeyword_word hk, splitAtKeyword_word hk, ih]
  | @group inner more o c i j _ hin _ _ ih' =>
    rw [List.cons_append, List.append_assoc, List.cons_append, splitAtKeyword_group hin,
      splitAtKeyword_group hin, ih']

/-- Tokens that are one piece hold no keyword to cut at. -/
theorem eq_of_splitAtKeyword_nil {keyword : List Char} (tokens : List Token) :
    ∀ (depth : Nat) (first : List Token),
      splitAtKeyword keyword depth tokens = (first, []) → tokens = first := by
  induction tokens with
  | nil =>
    intro depth first h
    simpa [splitAtKeyword] using h
  | cons t rest ih =>
    intro depth first h
    unfold splitAtKeyword at h
    split at h
    · simp at h
    · simp only [Prod.mk.injEq] at h
      obtain ⟨rfl, h⟩ := h
      exact congrArg (t :: ·) (ih (depthAfter depth t) _ (Prod.ext rfl h))

/-- The first piece ends before a keyword, and what follows that keyword is cut into the others. -/
theorem exists_of_splitAtKeyword_cons {keyword : List Char} (tokens : List Token) :
    ∀ (depth : Nat) (first piece : List Token) (more : List (List Token)),
      splitAtKeyword keyword depth tokens = (first, piece :: more) →
      ∃ t rest, tokens = first ++ t :: rest ∧ isKeyword keyword t = true ∧
        splitAtKeyword keyword 0 rest = (piece, more) := by
  induction tokens with
  | nil =>
    intro depth first piece more h
    simp [splitAtKeyword] at h
  | cons t rest ih =>
    intro depth first piece more h
    unfold splitAtKeyword at h
    split at h
    · -- the first token is the keyword, so the first piece is empty
      rename_i hk
      simp only [Prod.mk.injEq, List.cons.injEq] at h
      obtain ⟨rfl, hp, hm⟩ := h
      exact ⟨t, rest, rfl, hk.2, Prod.ext hp hm⟩
    · simp only [Prod.mk.injEq] at h
      obtain ⟨rfl, hm⟩ := h
      obtain ⟨t', rest', hr, hk, hs⟩ := ih (depthAfter depth t) _ piece more (Prod.ext rfl hm)
      exact ⟨t', rest', congrArg (t :: ·) hr, hk, hs⟩

/-- The pieces of balanced tokens are balanced. -/
theorem Balanced.pieces {tokens : List Token} (h : Balanced tokens) (keyword : List Char) :
    ∀ piece ∈ (splitAtKeyword keyword 0 tokens).1 :: (splitAtKeyword keyword 0 tokens).2,
      Balanced piece := by
  induction h with
  | nil =>
    intro piece hp
    rw [List.mem_singleton.mp hp]
    exact .nil
  | @word tokens chars start _ ih =>
    intro piece hp
    cases hk : isKeyword keyword (.word chars start) with
    -- the keyword is in no piece
    | true =>
      rw [splitAtKeyword_keyword hk] at hp
      rcases List.mem_cons.mp hp with rfl | hp
      · exact .nil
      · exact ih piece hp
    | false =>
      rw [splitAtKeyword_word hk] at hp
      rcases List.mem_cons.mp hp with rfl | hp
      · exact (ih _ List.mem_cons_self).word chars start
      · exact ih piece (List.mem_cons_of_mem _ hp)
  | @group inner more o c i j hpair hin _ _ ih' =>
    intro piece hp
    rw [splitAtKeyword_group hin] at hp
    rcases List.mem_cons.mp hp with rfl | hp
    · exact .group i j hpair hin (ih' _ List.mem_cons_self)
    · exact ih' piece (List.mem_cons_of_mem _ hp)

/-- The pieces hold neither the keyword they are cut at nor any other that the tokens do not
    hold. -/
theorem Balanced.uncut_pieces {tokens : List Token} (h : Balanced tokens)
    {keyword other : List Char} : other = keyword ∨ Uncut other tokens →
      ∀ piece ∈ (splitAtKeyword keyword 0 tokens).1 :: (splitAtKeyword keyword 0 tokens).2,
        Uncut other piece := by
  induction h with
  | nil =>
    intro _ piece hp
    rw [List.mem_singleton.mp hp]
    exact uncut_nil other
  | @word tokens chars start _ ih =>
    intro hother piece hp
    have hrest : other = keyword ∨ Uncut other tokens := hother.imp_right fun h => (uncut_word.mp h).2
    cases hk : isKeyword keyword (.word chars start) with
    | true =>
      rw [splitAtKeyword_keyword hk] at hp
      rcases List.mem_cons.mp hp with rfl | hp
      · exact uncut_nil other
      · exact ih hrest piece hp
    | false =>
      rw [splitAtKeyword_word hk] at hp
      rcases List.mem_cons.mp hp with rfl | hp
      · refine uncut_word.mpr ⟨?_, ih hrest _ List.mem_cons_self⟩
        rcases hother with rfl | hother
        · exact hk
        · exact (uncut_word.mp hother).1
      · exact ih hrest piece (List.mem_cons_of_mem _ hp)
  | @group inner more o c i j hpair hin _ _ ih' =>
    intro hother piece hp
    have hrest : other = keyword ∨ Uncut other more := hother.imp_right (uncut_group hin).mp
    rw [splitAtKeyword_group hin] at hp
    rcases List.mem_cons.mp hp with rfl | hp
    · exact (uncut_group hin).mpr (ih' hrest _ List.mem_cons_self)
    · exact ih' hrest piece (List.mem_cons_of_mem _ hp)

/-- The pieces consist of the tokens. -/
theorem mem_of_mem_pieces {keyword : List Char} (tokens : List Token) : ∀ (depth : Nat),
    ∀ piece ∈ (splitAtKeyword keyword depth tokens).1 :: (splitAtKeyword keyword depth tokens).2,
      ∀ t ∈ piece, t ∈ tokens := by
  induction tokens with
  | nil =>
    intro depth piece hp t ht
    rw [List.mem_singleton.mp hp] at ht
    exact ht
  | cons u rest ih =>
    intro depth piece hp t ht
    unfold splitAtKeyword at hp
    split at hp
    · rcases List.mem_cons.mp hp with rfl | hp
      · exact absurd ht (by simp)
      · exact List.mem_cons_of_mem u (ih 0 piece hp t ht)
    · rcases List.mem_cons.mp hp with rfl | hp
      · rcases List.mem_cons.mp ht with rfl | ht
        · exact List.mem_cons_self
        · exact List.mem_cons_of_mem u (ih _ _ List.mem_cons_self t ht)
      · exact List.mem_cons_of_mem u (ih _ piece (List.mem_cons_of_mem _ hp) t ht)

/-- Balanced tokens may be put one after the other. -/
theorem Balanced.append {a b : List Token} (ha : Balanced a) (hb : Balanced b) :
    Balanced (a ++ b) := by
  induction ha with
  | nil => exact hb
  | word chars start _ ih => exact ih.word chars start
  | @group inner more o c i j hp hin _ _ ih' =>
    rw [List.cons_append, List.append_assoc, List.cons_append]
    exact .group i j hp hin ih'

end Scim.Token
