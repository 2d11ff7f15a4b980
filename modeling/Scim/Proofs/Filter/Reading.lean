import Scim.Proofs.Filter.Grammar

/-!
  # Reading decides the grammar

  Both chains are joined from the left, in the grammar and by the reader: one part is a chain
  (`readChain_part`), a chain goes on with a keyword and another part (`readChain_snoc`), and nothing
  else is a chain (`of_readChain`).  A term is read by its shape, one lemma for each (`readTerm_…`).

    * Sound, by induction on the levels: `derives_of_readTerm`.
    * Complete, by induction on the derivation: `readPhrase_of_derives`.
    * A filter is parsed from a text if and only if the tokens of the text derive it, by both of
      them.
-/

namespace Scim

namespace FilterContext

variable {ctx : FilterContext} {scope : Option Reference} {tokens : List Token} {f : Filter}

/-! ## Chains -/

section Chains

variable {keyword : String} {join : Filter → Filter → Filter}
  {readPart : List Token → Reading Filter}

/-- Two readings succeed together if each of them does. -/
theorem both_eq_ok {α β γ : Type} {join : α → β → γ} {a : Reading α} {b : Reading β} {c : γ} :
    Reading.both join a b = .ok c ↔ ∃ x y, a = .ok x ∧ b = .ok y ∧ join x y = c := by
  cases a <;> cases b <;> simp [Reading.both]

/-- All parts are read if none is empty and each is read. -/
theorem readParts_eq_ok {missing : Error} {reported : Bool} {parts : List (List Token)}
    {filters : List Filter} :
    readParts readPart missing reported parts = .ok filters ↔
      List.Forall₂ (fun part f => part ≠ [] ∧ readPart part = .ok f) parts filters := by
  induction parts generalizing reported filters with
  | nil => simp [readParts, eq_comm]
  | cons part rest ih =>
    rw [readParts, List.forall₂_cons_left_iff]
    cases part with
    | nil => simp
    | cons t tokens =>
      rw [List.isEmpty_cons, if_neg (by decide), both_eq_ok]
      simp [ih, @eq_comm _ filters]

/-- A chain is read if all its parts are, and they are joined from the left. -/
theorem readChain_eq_ok {tokens : List Token} {f : Filter} :
    ctx.readChain keyword join readPart tokens = .ok f ↔
      ∃ first more, f = more.foldl join first ∧
        List.Forall₂ (fun part f => part ≠ [] ∧ readPart part = .ok f)
          ((Token.splitAtKeyword keyword.toList 0 tokens).1 ::
            (Token.splitAtKeyword keyword.toList 0 tokens).2) (first :: more) := by
  dsimp only [readChain]
  split
  · rename_i es he
    constructor
    · intro h
      exact absurd h (by simp)
    · rintro ⟨first, more, -, hparts⟩
      rw [readParts_eq_ok.mpr hparts] at he
      exact absurd he (by simp)
  · rename_i first more hparts
    have hread := readParts_eq_ok.mp hparts
    constructor
    · intro h
      exact ⟨first, more, (Except.ok.inj h).symm, hread⟩
    · rintro ⟨first', more', rfl, hread'⟩
      rw [readParts_eq_ok.mpr hread'] at hparts
      cases hparts
      rfl
  · rename_i hparts
    have hread := readParts_eq_ok.mp hparts
    exact absurd hread (by simp)

/-- One part is a chain. -/
theorem readChain_part {tokens : List Token} {f : Filter}
    (huncut : Token.Uncut keyword.toList tokens) (hne : tokens ≠ []) (h : readPart tokens = .ok f) :
    ctx.readChain keyword join readPart tokens = .ok f := by
  refine readChain_eq_ok.mpr ⟨f, [], rfl, ?_⟩
  rw [huncut]
  exact .cons ⟨hne, h⟩ .nil

/-- A chain goes on with a keyword and another part. -/
theorem readChain_snoc {left right : List Token} {t : Token} {f g : Filter}
    (hb : Token.Balanced left) (hl : ctx.readChain keyword join readPart left = .ok f)
    (ht : Token.isKeyword keyword.toList t = true) (huncut : Token.Uncut keyword.toList right)
    (hne : right ≠ []) (hr : readPart right = .ok g) :
    ctx.readChain keyword join readPart (left ++ t :: right) = .ok (join f g) := by
  obtain ⟨first, more, rfl, hparts⟩ := readChain_eq_ok.mp hl
  refine readChain_eq_ok.mpr ⟨first, more ++ [g], by rw [List.foldl_append]; rfl, ?_⟩
  rw [Token.splitAtKeyword_append_keyword hb ht, huncut, ← List.cons_append, ← List.cons_append]
  exact List.rel_append hparts (.cons ⟨hne, hr⟩ .nil)

/-- What holds of every part, and goes on with a keyword and another part, holds of the chain. -/
theorem of_readChain {P Q : List Token → Filter → Prop} (hpart : ∀ tokens f, P tokens f → Q tokens f)
    (hsnoc : ∀ left t right f g, Q left f → Token.isKeyword keyword.toList t = true → P right g →
      Q (left ++ t :: right) (join f g))
    {tokens : List Token} {f : Filter}
    (hread : ∀ part ∈ (Token.splitAtKeyword keyword.toList 0 tokens).1 ::
      (Token.splitAtKeyword keyword.toList 0 tokens).2, ∀ f, readPart part = .ok f → P part f)
    (h : ctx.readChain keyword join readPart tokens = .ok f) : Q tokens f := by
  -- what was read before a piece goes on with the pieces that are left
  have hgo : ∀ (more : List (List Token)) (filters : List Filter) (depth : Nat)
      (before first rest : List Token) (g : Filter),
      List.Forall₂ P more filters →
      Token.splitAtKeyword keyword.toList depth rest = (first, more) →
      Q (before ++ first) g → Q (before ++ rest) (filters.foldl join g) := by
    intro more
    induction more with
    | nil =>
      intro filters depth before first rest g hmore hsplit hg
      cases hmore
      rw [Token.eq_of_splitAtKeyword_nil rest depth first hsplit]
      exact hg
    | cons piece more ih =>
      intro filters depth before first rest g hmore hsplit hg
      obtain ⟨f, filters, hpiece, htail, rfl⟩ := List.forall₂_cons_left_iff.mp hmore
      obtain ⟨t, rest', rfl, ht, hsplit'⟩ :=
        Token.exists_of_splitAtKeyword_cons rest depth first piece more hsplit
      have hnext := hsnoc _ t piece g f hg ht hpiece
      have := ih filters 0 (before ++ first ++ [t]) piece rest' (join g f) htail hsplit'
        (by simpa using hnext)
      simpa using this
  obtain ⟨first, more, rfl, hparts⟩ := readChain_eq_ok.mp h
  obtain ⟨hfirst, hmore⟩ := List.forall₂_cons.mp hparts
  -- nothing was read before the first piece
  refine hgo _ more 0 [] _ tokens first ?_ rfl
    (hpart _ _ (hread _ List.mem_cons_self _ hfirst.2))
  have hmem : ∀ {parts : List (List Token)} {filters : List Filter},
      List.Forall₂ (fun part f => part ≠ [] ∧ readPart part = .ok f) parts filters →
      (∀ part ∈ parts, ∀ f, readPart part = .ok f → P part f) → List.Forall₂ P parts filters := by
    intro parts filters h
    induction h with
    | nil => exact fun _ => .nil
    | cons hpart _ ih =>
      intro hall
      exact .cons (hall _ List.mem_cons_self _ hpart.2)
        (ih fun part hp => hall part (List.mem_cons_of_mem _ hp))
  exact hmem hmore fun part hp => hread part (List.mem_cons_of_mem _ hp)

end Chains

/-! ## Comparisons -/

/-- The name of an attribute is read as it is in the grammar. -/
theorem readAttr_eq_ok {word : List Char} {attr : Reference} (hfree : isFree word) :
    ctx.readAttr word tokens scope = .ok attr ↔ ctx.Names scope word attr := by
  unfold readAttr
  constructor
  · intro h
    split at h
    · exact absurd h (by simp [Reading.fail])
    rename_i attr' hparse
    split at h
    · cases h
      exact ⟨hfree, hparse, by simp⟩
    split at h
    · exact absurd h (by simp [Reading.fail])
    rename_i hplain
    cases h
    refine ⟨hfree, hparse, fun _ => ?_⟩
    simpa using hplain
  · rintro ⟨-, hparse, hplain⟩
    rw [hparse]
    cases scope with
    | none => rfl
    | some parent =>
      obtain ⟨hsub, hschema⟩ := hplain rfl
      simp [hsub, hschema]

/-- A unary operator is read from any spelling of its token. -/
theorem readUnary_eq_ok (hops : ctx.operators.WellFormed) {word : List Char} {c : Comparison} :
    ctx.readUnary word tokens = .ok c ↔
      ∃ op ∈ ctx.operators.unary, op.key = Text.lower (String.ofList word) ∧ c = .unary op := by
  dsimp only [readUnary]
  constructor
  · intro h
    split at h
    · rename_i op hop
      obtain ⟨hmem, hkey⟩ := (hops.unary?_eq_some_iff _ op).mp hop
      exact ⟨op, hmem, hkey, (Except.ok.inj h).symm⟩
    · -- what is left is a mistake: a binary operator without operand, or none at all
      split at h
      · exact absurd h (by simp [Reading.fail])
      · exact absurd h (by simp [Reading.fail])
  · rintro ⟨op, hmem, hkey, rfl⟩
    rw [(hops.unary?_eq_some_iff _ op).mpr ⟨hmem, hkey⟩]

/-- An operand is read from the source that its word stands for. -/
theorem readLiteral_eq_ok {word source : List Char} {lit : Literal}
    (hspell : ctx.masked.Spells word source) :
    ctx.readLiteral word = .ok lit ↔ ctx.IsOperand word lit := by
  unfold IsOperand
  rw [Masked.unmask_of_spells hspell, ← Masked.operand?_of_spells hspell]
  unfold readLiteral Masked.operand?
  cases ctx.masked.literal? word with
  | some quoted => cases hq : Literal.ofQuoted? quoted <;> simp [hq, Reading.fail]
  | none => cases Literal.ofWord? word <;> simp [Reading.fail]

/-- A comparison is read from a spelling of its operator and an operand that this one supports. -/
theorem readBinary_eq_ok (hops : ctx.operators.WellFormed) {word operand source : List Char}
    {c : Comparison} (hspell : ctx.masked.Spells operand source) :
    ctx.readBinary word operand tokens = .ok c ↔
      ∃ op ∈ ctx.operators.binary, op.key = Text.lower (String.ofList word) ∧
        ∃ lit, ctx.IsOperand operand lit ∧ op.supportsOperand lit = true ∧ c = .binary op lit := by
  dsimp only [readBinary]
  constructor
  · intro h
    split at h
    · split at h
      · exact absurd h (by simp [Reading.fail])
      · exact absurd h (by simp [Reading.fail])
    rename_i op hop
    obtain ⟨hmem, hkey⟩ := (hops.binary?_eq_some_iff _ op).mp hop
    split at h
    · exact absurd h (by simp)
    rename_i lit hlit
    split at h
    · rename_i hsupports
      exact ⟨op, hmem, hkey, lit, (readLiteral_eq_ok hspell).mp hlit, hsupports,
        (Except.ok.inj h).symm⟩
    · exact absurd h (by simp [Reading.fail])
  · rintro ⟨op, hmem, hkey, lit, hlit, hsupports, rfl⟩
    rw [(hops.binary?_eq_some_iff _ op).mpr ⟨hmem, hkey⟩]
    dsimp only
    rw [(readLiteral_eq_ok hspell).mpr hlit]
    dsimp only
    rw [if_pos hsupports]

/-! ## Terms -/

theorem map_eq_ok {α β : Type} {g : α → β} {a : Reading α} {b : β} :
    Except.map g a = .ok b ↔ ∃ x, a = .ok x ∧ b = g x := by
  cases a <;> simp [Except.map, eq_comm]

/-- What stands between two brackets is what was put there. -/
theorem between_append (before inner : List Token) (opening closing : Token) :
    between (before ++ opening :: (inner ++ [closing])) before.length = inner := by
  simp [between, List.drop_append]

variable {levels : Nat} {inner rest : List Token}

/-- A term in round brackets is read if its contents are, and it ends with them. -/
theorem readTerm_group_eq_ok (hin : Token.Balanced inner) {i j : Nat} :
    ctx.readTerm (levels + 1) scope (.opening '(' i :: (inner ++ .closing ')' j :: rest)) = .ok f ↔
      rest = [] ∧ inner ≠ [] ∧
        ∃ g, ctx.readFilterWith (ctx.readTerm levels scope) inner = .ok g ∧ f = .group g := by
  have hclosed :
      Token.closedByLast (.opening '(' i :: (inner ++ .closing ')' j :: rest)) 0 = true ↔
        rest = [] :=
    Token.closedByLast_group hin [] '(' ')' i j rest
  -- the bracket must end the term, and its contents are what is between
  rw [readTerm]
  by_cases hrest : rest = []
  · subst hrest
    have hinner : between (.opening '(' i :: (inner ++ [.closing ')' j])) 0 = inner :=
      between_append [] inner _ _
    rw [if_pos (hclosed.mpr rfl), hinner]
    by_cases hne : inner = []
    · simp [hne, Reading.fail]
    · simp [hne, map_eq_ok]
  · rw [if_neg fun h => hrest (hclosed.mp h)]
    simp [hrest, Reading.fail]

/-- A negation is read if the term behind it is. -/
theorem readTerm_not_eq_ok {t : Token} (ht : Token.isKeyword ['n', 'o', 't'] t = true) :
    ctx.readTerm (levels + 1) scope (t :: rest) = .ok f ↔
      rest ≠ [] ∧ ∃ g, ctx.readTerm levels scope rest = .ok g ∧ f = .not g := by
  obtain ⟨word, start, rfl, -⟩ := exists_word_of_isKeyword ht
  dsimp only [readTerm]
  rw [if_pos ht]
  by_cases hne : rest = []
  · simp [hne, Reading.fail]
  · simp [hne, map_eq_ok]

section Words

variable {word : List Char} {start : Nat}

/-- A filter in square brackets is read outside of others only, for an attribute and what is in the
    brackets. -/
theorem readComplex_eq_ok (hword : isFree word)
    {readInner : Reference → List Token → Reading Filter} (hinner : between tokens 1 = inner) :
    ctx.readComplex readInner word tokens scope = .ok f ↔
      scope = none ∧ inner ≠ [] ∧ ∃ attr g, ctx.Names none word attr ∧ attr.isSub = false ∧
        readInner attr inner = .ok g ∧ f = .complex attr g := by
  unfold readComplex
  cases scope with
  | some parent => simp [Reading.fail]
  | none =>
    dsimp only
    rw [hinner]
    split
    · rename_i es hattr
      constructor
      · intro h
        exact absurd h (by simp)
      · rintro ⟨-, -, attr, g, hname, -⟩
        rw [(readAttr_eq_ok hword).mpr hname] at hattr
        exact absurd hattr (by simp)
    rename_i attr hattr
    have hname := (readAttr_eq_ok hword).mp hattr
    -- a word is read as one name only
    have hunique : ∀ attr', ctx.Names none word attr' → attr' = attr := by
      intro attr' hname'
      have heq := hname.parsed.symm.trans hname'.parsed
      exact (Except.ok.inj heq).symm
    constructor
    · intro h
      split at h
      · exact absurd h (by simp [Reading.fail])
      rename_i hsub
      split at h
      · exact absurd h (by simp [Reading.fail])
      rename_i hne
      obtain ⟨g, hg, rfl⟩ := map_eq_ok.mp h
      exact ⟨rfl, by simpa using hne, attr, g, hname, by simpa using hsub, hg, rfl⟩
    · rintro ⟨-, hne, attr', g, hname', hsub, hg, rfl⟩
      obtain rfl := hunique attr' hname'
      rw [hsub, if_neg (by decide), if_neg (by simpa using hne), map_eq_ok]
      exact ⟨g, hg, rfl⟩

/-- A term in square brackets is read if its contents are, and it ends with them. -/
theorem readTerm_complex_eq_ok (hword : isFree word) (hin : Token.Balanced inner) {i j : Nat} :
    ctx.readTerm (levels + 1) scope
        (.word word start :: .opening '[' i :: (inner ++ .closing ']' j :: rest)) = .ok f ↔
      rest = [] ∧ scope = none ∧ inner ≠ [] ∧
        ∃ attr g, ctx.Names none word attr ∧ attr.isSub = false ∧
          ctx.readFilterWith (ctx.readTerm levels (some attr)) inner = .ok g ∧
            f = .complex attr g := by
  have hclosed : Token.closedByLast
      (.word word start :: .opening '[' i :: (inner ++ .closing ']' j :: rest)) 1 = true ↔
        rest = [] :=
    Token.closedByLast_group hin [.word word start] '[' ']' i j rest
  have hnot : Token.isKeyword ['n', 'o', 't'] (.word word start) = false := hword "not" (by decide)
  rw [readTerm, hnot, if_neg (by decide)]
  by_cases hrest : rest = []
  · subst hrest
    have hinner : between (.word word start :: .opening '[' i :: (inner ++ [.closing ']' j])) 1 =
        inner := between_append [.word word start] inner _ _
    rw [if_pos (hclosed.mpr rfl), readComplex_eq_ok hword hinner]
    simp
  · rw [if_neg fun h => hrest (hclosed.mp h)]
    simp [hrest, Reading.fail]

/-- Two words are read as the test of an attribute. -/
theorem readTerm_unary_eq_ok (hops : ctx.operators.WellFormed) (hword : isFree word)
    {operator : List Char} {i : Nat} :
    ctx.readTerm (levels + 1) scope [.word word start, .word operator i] = .ok f ↔
      ∃ attr, ctx.Names scope word attr ∧ ∃ op ∈ ctx.operators.unary,
        op.key = Text.lower (String.ofList operator) ∧ f = .leaf ⟨attr, .unary op⟩ := by
  have hnot : Token.isKeyword ['n', 'o', 't'] (.word word start) = false := hword "not" (by decide)
  dsimp only [readTerm]
  rw [hnot, if_neg (by decide), both_eq_ok]
  constructor
  · rintro ⟨attr, c, hattr, hc, rfl⟩
    obtain ⟨op, hmem, hkey, rfl⟩ := (readUnary_eq_ok hops).mp hc
    exact ⟨attr, (readAttr_eq_ok hword).mp hattr, op, hmem, hkey, rfl⟩
  · rintro ⟨attr, hname, op, hmem, hkey, rfl⟩
    exact ⟨attr, .unary op, (readAttr_eq_ok hword).mpr hname,
      (readUnary_eq_ok hops).mpr ⟨op, hmem, hkey, rfl⟩, rfl⟩

/-- Three words are read as a comparison of an attribute with an operand. -/
theorem readTerm_binary_eq_ok (hops : ctx.operators.WellFormed) (hword : isFree word)
    {operator operand source : List Char} (hspell : ctx.masked.Spells operand source) {i j : Nat} :
    ctx.readTerm (levels + 1) scope [.word word start, .word operator i, .word operand j] = .ok f ↔
      ∃ attr, ctx.Names scope word attr ∧ ∃ op ∈ ctx.operators.binary,
        op.key = Text.lower (String.ofList operator) ∧ ∃ lit, ctx.IsOperand operand lit ∧
          op.supportsOperand lit = true ∧ f = .leaf ⟨attr, .binary op lit⟩ := by
  have hnot : Token.isKeyword ['n', 'o', 't'] (.word word start) = false := hword "not" (by decide)
  dsimp only [readTerm]
  rw [hnot, if_neg (by decide), both_eq_ok]
  constructor
  · rintro ⟨attr, c, hattr, hc, rfl⟩
    obtain ⟨op, hmem, hkey, lit, hlit, hsupports, rfl⟩ := (readBinary_eq_ok hops hspell).mp hc
    exact ⟨attr, (readAttr_eq_ok hword).mp hattr, op, hmem, hkey, lit, hlit, hsupports, rfl⟩
  · rintro ⟨attr, hname, op, hmem, hkey, lit, hlit, hsupports, rfl⟩
    exact ⟨attr, .binary op lit, (readAttr_eq_ok hword).mpr hname,
      (readBinary_eq_ok hops hspell).mpr ⟨op, hmem, hkey, lit, hlit, hsupports, rfl⟩, rfl⟩

/-- Words of any other shape are no term. -/
theorem readTerm_ne_ok (hnot : Token.isKeyword ['n', 'o', 't'] (.word word start) = false)
    (hcomplex : ∀ i tail, rest ≠ .opening '[' i :: tail)
    (hunary : ∀ operator i, rest ≠ [.word operator i])
    (hbinary : ∀ operator i operand j, rest ≠ [.word operator i, .word operand j]) :
    ctx.readTerm (levels + 1) scope (.word word start :: rest) ≠ .ok f := by
  rw [readTerm, hnot, if_neg (by decide)]
  · simp [Reading.fail]
  · exact hcomplex
  · exact hunary
  · exact hbinary

end Words

/-! ## Phrases -/

theorem toList_or : "or".toList = ['o', 'r'] := by decide +kernel

theorem toList_and : "and".toList = ['a', 'n', 'd'] := by decide +kernel

/-- Reads a phrase whose terms are at most `levels` filters deep. -/
def readPhrase (ctx : FilterContext) (levels : Nat) (scope : Option Reference) :
    Phrase → List Token → Reading Filter
  | .disjunction => ctx.readFilterWith (ctx.readTerm levels scope)
  | .conjunction => ctx.readChain "and" .and (ctx.readTerm levels scope)
  | .term => ctx.readTerm levels scope

/-- If terms are read soundly, so are chains of them. -/
theorem derives_of_readPhrase_of_term (hterm : ∀ tokens f, Token.Balanced tokens →
      ctx.Sourced tokens → Fits .term tokens → ctx.readTerm levels scope tokens = .ok f →
      ctx.Derives .term scope tokens f) :
    ∀ (phrase : Phrase) (tokens : List Token) (f : Filter), Token.Balanced tokens →
      ctx.Sourced tokens → Fits phrase tokens → ctx.readPhrase levels scope phrase tokens = .ok f →
      ctx.Derives phrase scope tokens f := by
  -- a chain of terms first, for the chain above it is made of such chains
  have hconj : ∀ tokens f, Token.Balanced tokens → ctx.Sourced tokens → Fits .conjunction tokens →
      ctx.readPhrase levels scope .conjunction tokens = .ok f →
      ctx.Derives .conjunction scope tokens f := by
    intro tokens f hb hs hfits h
    refine of_readChain (P := ctx.Derives .term scope) (Q := ctx.Derives .conjunction scope)
      (fun _ _ => .term) (fun left t right f g hl ht hr => ?_) (fun part hp f => ?_) h
    · rw [toList_and] at ht
      exact .and hl ht hr
    · rw [toList_and] at hp
      exact hterm part f (hb.pieces _ part hp) (hs.mono (Token.mem_of_mem_pieces tokens 0 part hp))
        ⟨hb.uncut_pieces (.inr hfits) part hp, hb.uncut_pieces (.inl rfl) part hp⟩
  intro phrase
  cases phrase with
  | term => exact hterm
  | conjunction => exact hconj
  | disjunction =>
    intro tokens f hb hs _ h
    refine of_readChain (P := ctx.Derives .conjunction scope) (Q := ctx.Derives .disjunction scope)
      (fun _ _ => .conjunction) (fun left t right f g hl ht hr => ?_) (fun part hp f => ?_) h
    · rw [toList_or] at ht
      exact .or hl ht hr
    · rw [toList_or] at hp
      exact hconj part f (hb.pieces _ part hp) (hs.mono (Token.mem_of_mem_pieces tokens 0 part hp))
        (hb.uncut_pieces (.inl rfl) part hp)

/-- A term that begins with the name of an attribute is a presence test, a comparison, or a filter in
    brackets. -/
theorem derives_of_readTerm_attr (hops : ctx.operators.WellFormed)
    (hfilter : ∀ scope inner f, Token.Balanced inner → ctx.Sourced inner →
      ctx.readFilterWith (ctx.readTerm levels scope) inner = .ok f →
        ctx.Derives .disjunction scope inner f)
    (hword : isFree word) (hrest : Token.Balanced rest) (hs : ctx.Sourced (.word word start :: rest))
    (h : ctx.readTerm (levels + 1) scope (.word word start :: rest) = .ok f) :
    ctx.Derives .term scope (.word word start :: rest) f := by
  have hnot : Token.isKeyword ['n', 'o', 't'] (.word word start) = false :=
    hword "not" (by simp [Operators.keywords])
  -- by what follows the word, which is balanced by itself
  cases hrest with
  | nil =>
    exact absurd h (readTerm_ne_ok hnot (by simp) (by simp) (by simp))
  | @group inner rest o c i j hp hin hrest =>
    cases hp with
    | square =>
      obtain ⟨rfl, rfl, -, attr, g, hname, hsub, hg, rfl⟩ :=
        (readTerm_complex_eq_ok hword hin).mp h
      exact .complex start i j hname hsub
        (hfilter (some attr) inner g hin (hs.mono fun t ht => by simp [ht]) hg)
    | round =>
      exact absurd h (readTerm_ne_ok hnot (by simp) (by simp) (by simp))
  | @word rest operator i hrest =>
    cases hrest with
    | nil =>
      obtain ⟨attr, hname, op, hmem, hkey, rfl⟩ := (readTerm_unary_eq_ok hops hword).mp h
      exact .unary start i hname hmem hkey
    | group =>
      exact absurd h (readTerm_ne_ok hnot (by simp) (by simp) (by simp))
    | @word rest operand j hrest =>
      obtain ⟨source, hspell⟩ := hs operand j (by simp)
      cases hrest with
      | nil =>
        obtain ⟨attr, hname, op, hmem, hkey, lit, hlit, hsupports, rfl⟩ :=
          (readTerm_binary_eq_ok hops hword hspell).mp h
        exact .binary start i j hname hmem hkey hlit hsupports
      | group =>
        exact absurd h (readTerm_ne_ok hnot (by simp) (by simp) (by simp))
      | word =>
        exact absurd h (readTerm_ne_ok hnot (by simp) (by simp) (by simp))

/-- Nothing is read that does not derive from the grammar. -/
theorem derives_of_readTerm (hops : ctx.operators.WellFormed) (levels : Nat) :
    ∀ (scope : Option Reference) (tokens : List Token) (f : Filter), Token.Balanced tokens →
      ctx.Sourced tokens → Fits .term tokens → ctx.readTerm levels scope tokens = .ok f →
      ctx.Derives .term scope tokens f := by
  induction levels with
  -- nothing is read without levels
  | zero =>
    intro scope tokens f _ _ _ h
    rw [readTerm] at h
    exact absurd h (by simp [Reading.fail])
  | succ levels ih =>
    intro scope tokens f hb hs hfits h
    have hfilter : ∀ scope inner f, Token.Balanced inner → ctx.Sourced inner →
        ctx.readFilterWith (ctx.readTerm levels scope) inner = .ok f →
        ctx.Derives .disjunction scope inner f := fun scope inner f hb hs h =>
      derives_of_readPhrase_of_term (ih scope) .disjunction inner f hb hs trivial h
    cases hb with
    | nil =>
      rw [readTerm] at h
      · exact absurd h (by simp [Reading.fail])
      · simp
      · simp
    | @group inner rest o c i j hp hin hrest =>
      cases hp with
      | round =>
        obtain ⟨rfl, -, g, hg, rfl⟩ := (readTerm_group_eq_ok hin).mp h
        exact .group i j (hfilter scope inner g hin (hs.mono fun t ht => by simp [ht]) hg)
      | square =>
        rw [readTerm] at h
        · exact absurd h (by simp [Reading.fail])
        · simp
        · simp
    | @word rest word start hrest =>
      obtain ⟨hor, hor'⟩ := Token.uncut_word.mp hfits.1
      obtain ⟨hand, hand'⟩ := Token.uncut_word.mp hfits.2
      -- a word: either `not`, or the name of an attribute, for other keywords are cut away
      cases hnot : Token.isKeyword ['n', 'o', 't'] (.word word start) with
      | true =>
        obtain ⟨-, g, hg, rfl⟩ := (readTerm_not_eq_ok hnot).mp h
        exact .not hnot (ih scope rest g hrest (hs.mono fun t => List.mem_cons_of_mem _)
          ⟨hor', hand'⟩ hg)
      | false =>
        have hword : isFree word := by
          intro keyword hk
          simp only [Operators.keywords, List.mem_cons, List.not_mem_nil, or_false] at hk
          rcases hk with rfl | rfl | rfl
          · exact hand
          · exact hor
          · exact hnot
        exact derives_of_readTerm_attr hops hfilter hword hrest hs h

/-- Whatever derives from the grammar is read, if there are as many levels as tokens. -/
theorem readPhrase_of_derives (hops : ctx.operators.WellFormed) (hs : ctx.Sourced tokens)
    (h : ctx.Derives phrase scope tokens f) :
    ∀ levels, tokens.length ≤ levels → ctx.readPhrase levels scope phrase tokens = .ok f := by
  -- brackets and `not` take one level each, and at least one token with it
  induction h with
  | @conjunction _ tokens f hconj ih =>
    intro levels hlen
    exact readChain_part (toList_or ▸ hconj.fits hops hs) hconj.ne_nil (ih hs levels hlen)
  | @or _ left right t f g hl ht hr ihl ihr =>
    intro levels hlen
    rw [List.length_append, List.length_cons] at hlen
    have hsl : ctx.Sourced left := hs.mono fun t ht => List.mem_append_left _ ht
    have hsr : ctx.Sourced right :=
      hs.mono fun t ht => List.mem_append_right _ (List.mem_cons_of_mem _ ht)
    exact readChain_snoc hl.balanced (ihl hsl levels (by omega)) (toList_or ▸ ht)
      (toList_or ▸ hr.fits hops hsr) hr.ne_nil (ihr hsr levels (by omega))
  | @term _ tokens f hterm ih =>
    intro levels hlen
    exact readChain_part (toList_and ▸ (hterm.fits hops hs).2) hterm.ne_nil (ih hs levels hlen)
  | @and _ left right t f g hl ht hr ihl ihr =>
    intro levels hlen
    rw [List.length_append, List.length_cons] at hlen
    have hsl : ctx.Sourced left := hs.mono fun t ht => List.mem_append_left _ ht
    have hsr : ctx.Sourced right :=
      hs.mono fun t ht => List.mem_append_right _ (List.mem_cons_of_mem _ ht)
    exact readChain_snoc hl.balanced (ihl hsl levels (by omega)) (toList_and ▸ ht)
      (toList_and ▸ (hr.fits hops hsr).2) hr.ne_nil (ihr hsr levels (by omega))
  | @not _ tokens t f ht hr ih =>
    intro levels hlen
    obtain ⟨levels, rfl⟩ := Nat.exists_eq_add_of_le' hlen
    rw [List.length_cons, ← Nat.add_assoc]
    have hsr := hs.mono fun t ht => List.mem_cons_of_mem _ ht
    exact (readTerm_not_eq_ok ht).mpr ⟨hr.ne_nil, f, ih hsr _ (by omega), rfl⟩
  -- two brackets were added, and one level is taken
  | @group _ tokens f i j hin ih =>
    intro levels hlen
    obtain ⟨levels, rfl⟩ := Nat.exists_eq_add_of_le' hlen
    rw [List.length_cons, ← Nat.add_assoc]
    have hsin : ctx.Sourced tokens := hs.mono fun t ht => by simp [ht]
    refine (readTerm_group_eq_ok hin.balanced).mpr ⟨rfl, hin.ne_nil, f, ih hsin _ ?_, rfl⟩
    rw [List.length_append]
    omega
  | @complex tokens word attr f start i j hname hsub hin ih =>
    intro levels hlen
    obtain ⟨levels, rfl⟩ := Nat.exists_eq_add_of_le' hlen
    rw [List.length_cons, ← Nat.add_assoc]
    have hsin : ctx.Sourced tokens := hs.mono fun t ht => by simp [ht]
    refine (readTerm_complex_eq_ok hname.free hin.balanced).mpr
      ⟨rfl, rfl, hin.ne_nil, attr, f, hname, hsub, ih hsin _ ?_, rfl⟩
    rw [List.length_cons, List.length_append]
    omega
  | @unary _ path word attr op i j hname hmem hkey =>
    intro levels hlen
    obtain ⟨levels, rfl⟩ := Nat.exists_eq_add_of_le' hlen
    exact (readTerm_unary_eq_ok hops hname.free).mpr ⟨attr, hname, op, hmem, hkey, rfl⟩
  | @binary _ path word operand attr op lit i j k hname hmem hkey hlit hsupports =>
    intro levels hlen
    obtain ⟨levels, rfl⟩ := Nat.exists_eq_add_of_le' hlen
    obtain ⟨source, hspell⟩ := hs operand k (by simp)
    exact (readTerm_binary_eq_ok hops hname.free hspell).mpr
      ⟨attr, hname, op, hmem, hkey, lit, hlit, hsupports, rfl⟩

/-- Reading decides the grammar. -/
theorem readFilter_eq_ok (hops : ctx.operators.WellFormed) (hb : Token.Balanced tokens)
    (hs : ctx.Sourced tokens) :
    ctx.readFilter tokens = .ok f ↔ ctx.Derives .disjunction none tokens f := by
  constructor
  · intro h
    exact derives_of_readPhrase_of_term (derives_of_readTerm hops tokens.length none) .disjunction
      tokens f hb hs trivial h
  · intro h
    exact readPhrase_of_derives hops hs h tokens.length (Nat.le_refl _)

end FilterContext

/-! ## Texts -/

/-- The context in which a text is read, its literals put aside. -/
def FilterContext.ofText (catalog : Catalog) (operators : Operators) (input : List Char) :
    FilterContext :=
  ⟨(Masked.mask input).1, catalog, operators⟩

/-- A text is read if its literals are closed and its tokens derive from the grammar. -/
theorem Filter.read_eq_ok {catalog : Catalog} {operators : Operators}
    (hops : operators.WellFormed) {input : List Char} (hinput : Masked.border ∉ input)
    {f : Filter} :
    Filter.read catalog operators input = .ok f ↔
      (Masked.mask input).2 = none ∧
        (FilterContext.ofText catalog operators input).Derives .disjunction none
          (Token.readAll (Masked.mask input).1) f := by
  have hs : (FilterContext.ofText catalog operators input).Sourced
      (Token.readAll (Masked.mask input).1) := Masked.spells_of_mem_readAll hinput
  -- reading starts once brackets match, literals are closed and there is something to read
  have hread : Filter.read catalog operators input = .ok f ↔
      Token.unbalanced? [] (Masked.mask input).1.chars = none ∧ (Masked.mask input).2 = none ∧
        Token.readAll (Masked.mask input).1 ≠ [] ∧
        (FilterContext.ofText catalog operators input).readFilter
          (Token.readAll (Masked.mask input).1) = .ok f := by
    unfold Filter.read
    split
    rename_i masked unclosed hmask
    rw [FilterContext.ofText, hmask]
    cases Token.unbalanced? [] masked.chars with
    | some bracket => simp [Reading.fail]
    | none =>
      cases unclosed with
      | some literal => simp [Reading.fail]
      | none =>
        cases htokens : Token.readAll masked with
        | nil => simp [Reading.fail]
        | cons t tokens => simp
  -- what derives is balanced and not empty anyway
  rw [hread, Token.unbalanced?_eq_none_iff]
  constructor
  · rintro ⟨hb, hclosed, -, h⟩
    exact ⟨hclosed, (FilterContext.readFilter_eq_ok hops hb hs).mp h⟩
  · rintro ⟨hclosed, h⟩
    exact ⟨h.balanced, hclosed, h.ne_nil,
      (FilterContext.readFilter_eq_ok hops h.balanced hs).mpr h⟩

/-- A text is parsed as a filter if its characters are read as one. -/
theorem Filter.parse_eq_ok {catalog : Catalog} {operators : Operators} {s : String} {f : Filter} :
    Filter.parse catalog operators s = .ok f ↔ Filter.read catalog operators s.toList = .ok f := by
  unfold Filter.parse
  cases Filter.read catalog operators s.toList <;> simp [Except.mapError]

/-- A filter is parsed from a text if and only if the literals of the text are closed and its tokens
    derive the filter from the grammar. -/
theorem Filter.parse_iff_derives (catalog : Catalog) {operators : Operators}
    (hops : operators.Built) {s : String} (hs : Masked.border ∉ s.toList) (f : Filter) :
    Filter.parse catalog operators s = .ok f ↔
      (Masked.mask s.toList).2 = none ∧
        (FilterContext.ofText catalog operators s.toList).Derives .disjunction none
          (Token.readAll (Masked.mask s.toList).1) f := by
  rw [Filter.parse_eq_ok]
  exact Filter.read_eq_ok hops.wellFormed hs

/-- Brackets, a chain, a literal with a blank in it and both kinds of operators. -/
theorem Filter.parse_iff_derives_members :
    Operators.standard.Built ∧ Masked.border ∉ "a pr AND not(b eq \"x y\")".toList ∧
      Filter.parse .empty .standard "a pr AND not(b eq \"x y\")" =
        .ok (.and (.leaf ⟨.plain ⟨⟨"a", by decide +kernel⟩, none⟩, .unary .present⟩)
          (.not (.group (.leaf ⟨.plain ⟨⟨"b", by decide +kernel⟩, none⟩,
            .binary .equal (.string "x y")⟩)))) := by
  have hs : Masked.border ∉ "a pr AND not(b eq \"x y\")".toList := by decide +kernel
  refine ⟨Operators.built_standard, hs, ?_⟩
  apply (Filter.parse_iff_derives .empty Operators.built_standard hs _).mpr
  have hmask : Masked.mask "a pr AND not(b eq \"x y\")".toList =
      (⟨"a pr AND not(b eq \u00000\u0000)".toList, ["\"x y\"".toList]⟩, none) := by
    decide +kernel
  have htokens : Token.readAll ⟨"a pr AND not(b eq \u00000\u0000)".toList, ["\"x y\"".toList]⟩ =
      [.word ['a'] 0, .word ['p', 'r'] 2] ++ .word ['A', 'N', 'D'] 5 ::
        (.word ['n', 'o', 't'] 9 :: .opening '(' 12 ::
          ([.word ['b'] 13, .word ['e', 'q'] 15, .word ['\u0000', '0', '\u0000'] 18] ++
            [.closing ')' 21])) := by
    decide +kernel
  rw [FilterContext.ofText, hmask, htokens]
  refine ⟨rfl, .conjunction (.and (.term (.unary 0 2 ?_ ?_ ?_)) ?_ (.not ?_ (.group 12 21
    (.conjunction (.term (.binary 13 15 18 ?_ ?_ ?_ (.inl ?_) ?_))))))⟩
  · exact ⟨by decide +kernel, by decide +kernel, by simp⟩
  · exact List.mem_cons_self
  · decide +kernel
  · decide +kernel
  · decide +kernel
  · exact ⟨by decide +kernel, by decide +kernel, by simp⟩
  · exact List.mem_cons_self
  · decide +kernel
  · decide +kernel
  · rfl

end Scim
