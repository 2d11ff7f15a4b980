import Scim.Filter.Parser
import Scim.Proofs.Filter.Brackets
import Scim.Proofs.Filter.Registry
import Scim.Proofs.Filter.Sources

/-!
  # The grammar of filters

  The reader cuts tokens at keywords and looks at the shape of what is between them.  Here is the
  grammar that it decides, `FilterContext.Derives`.

    * `isFree` says that a word is no keyword.  Paths have to be free; operators and operands always
      are (`Operators.WellFormed.isFree`, `isFree_of_operand`).
    * The brackets of what derives match (`Derives.balanced`), and it would not be cut where the
      reader does not look for a chain (`Derives.fits`).
-/

namespace Scim

/-! ## Keywords -/

/-- Whether a word is none of the keywords. -/
def isFree (word : List Char) : Prop :=
  ∀ keyword ∈ Operators.keywords, Text.sameAscii word keyword.toList = false

instance (word : List Char) : Decidable (isFree word) :=
  inferInstanceAs (Decidable (∀ keyword ∈ Operators.keywords, _))

/-- Keywords are made of letters, all of them in lower case. -/
theorem isAlpha_of_keyword : ∀ keyword ∈ Operators.keywords,
    (∀ c ∈ keyword.toList, c.toLower.isAlpha = true) ∧
      keyword.toList.map Char.toLower = keyword.toList := by
  have h : (Operators.keywords.all fun keyword =>
      keyword.toList.all (fun c => c.toLower.isAlpha) &&
        keyword.toList.map Char.toLower == keyword.toList) = true := by
    decide +kernel
  intro keyword hk
  obtain ⟨halpha, hlower⟩ := Bool.and_eq_true_iff.mp (List.all_eq_true.mp h keyword hk)
  exact ⟨List.all_eq_true.mp halpha, beq_iff_eq.mp hlower⟩

/-- The empty word and the JSON constants are no keywords. -/
theorem isFree_constants : ∀ word ∈ [[], ['t', 'r', 'u', 'e'], ['f', 'a', 'l', 's', 'e'],
    ['n', 'u', 'l', 'l']], isFree word := by
  decide +kernel

/-- The tokens of operators are no keywords, however they are written. -/
theorem Operators.WellFormed.isFree {ops : Operators} (h : ops.WellFormed) {word : List Char}
    (hword : Text.lower (String.ofList word) ∈ ops.keys) : isFree word := by
  intro keyword hk
  cases hsame : Text.sameAscii word keyword.toList with
  | false => rfl
  | true =>
    obtain ⟨halpha, hlower⟩ := isAlpha_of_keyword keyword hk
    have hletters := Text.isAlpha_of_sameAscii hsame halpha
    -- a word that is a keyword up to case has the keyword for its lower-case form
    have hkey : Text.lower (String.ofList word) = keyword := by
      rw [Text.lower, String.toList_ofList, Text.lowerFrom_of_isAlpha hletters, beq_iff_eq.mp hsame,
        hlower, String.ofList_toList]
    rw [hkey] at hword
    exact absurd hk (h.reserved keyword hword)

/-- Words that stand for constants, numbers and strings are no keywords. -/
theorem isFree_of_operand {m : Masked} {word source : List Char} {lit : Literal}
    (hspell : m.Spells word source) (h : Literal.IsRead source lit) : isFree word := by
  intro keyword hk
  cases hsame : Text.sameAscii word keyword.toList with
  | false => rfl
  | true =>
    obtain ⟨halpha, -⟩ := isAlpha_of_keyword keyword hk
    have hletters := Text.isAlpha_of_sameAscii hsame halpha
    -- a word of letters is its own source
    obtain rfl : word = source := by
      rcases hspell.eq_or_mem with heq | ⟨hborder, -⟩
      · exact heq
      · exact absurd (hletters _ hborder) (by decide)
    -- it is not empty and no constant, for keywords are none of these
    have hconstant : word ∉ [[], ['t', 'r', 'u', 'e'], ['f', 'a', 'l', 's', 'e'],
        ['n', 'u', 'l', 'l']] := by
      intro hmem
      rw [isFree_constants word hmem keyword hk] at hsame
      exact absurd hsame (by decide)
    simp only [List.mem_cons, List.not_mem_nil, or_false, not_or] at hconstant
    obtain ⟨hnil, htrue, hfalse, hnull⟩ := hconstant
    cases word with
    | nil => exact absurd rfl hnil
    | cons c rest =>
      have hc := hletters c List.mem_cons_self
      rcases h with h | h
      · have hquote : c ≠ '"' := by
          rintro rfl
          exact absurd hc (by decide)
        rw [Literal.ofQuoted?, Text.unquote] at h
        · exact absurd h (by simp)
        · rintro _ he
          exact hquote (List.cons.inj he).1
      · have hnone : Json.scalar? (c :: rest) = none := by
          rw [Json.scalar?, if_neg htrue, if_neg hfalse, if_neg hnull, Json.read?_of_isAlpha hc]
        rw [Literal.ofWord?, hnone] at h
        exact absurd h (by simp)

/-! ## The grammar -/

/-- The three kinds of phrases. -/
inductive Phrase where
  | disjunction
  | conjunction
  | term
deriving DecidableEq

namespace FilterContext

/-- A word that names an attribute.  It is no keyword, and in square brackets it is the plain name
    of a sub-attribute. -/
structure Names (ctx : FilterContext) (scope : Option Reference) (word : List Char)
    (attr : Reference) : Prop where
  free : isFree word
  parsed : Reference.parse ctx.catalog (ctx.masked.unmaskText word) = .ok attr
  plain : scope.isSome = true → attr.isSub = false ∧ attr.schema? = none

/-- A word that stands for an operand: a quoted string, or a constant or number. -/
def IsOperand (ctx : FilterContext) (word : List Char) (lit : Literal) : Prop :=
  Literal.IsRead (ctx.masked.unmask word) lit

/-- The grammar.  `or` joins conjunctions and `and` joins terms, both from the left; the scope is the
    attribute whose square brackets the tokens stand in, if any. -/
inductive Derives (ctx : FilterContext) :
    Phrase → Option Reference → List Token → Filter → Prop
  | conjunction {scope : Option Reference} {tokens : List Token} {f : Filter} :
      Derives ctx .conjunction scope tokens f → Derives ctx .disjunction scope tokens f
  | or {scope : Option Reference} {left right : List Token} {t : Token} {f g : Filter} :
      Derives ctx .disjunction scope left f → Token.isKeyword ['o', 'r'] t = true →
      Derives ctx .conjunction scope right g →
      Derives ctx .disjunction scope (left ++ t :: right) (.or f g)
  | term {scope : Option Reference} {tokens : List Token} {f : Filter} :
      Derives ctx .term scope tokens f → Derives ctx .conjunction scope tokens f
  | and {scope : Option Reference} {left right : List Token} {t : Token} {f g : Filter} :
      Derives ctx .conjunction scope left f → Token.isKeyword ['a', 'n', 'd'] t = true →
      Derives ctx .term scope right g →
      Derives ctx .conjunction scope (left ++ t :: right) (.and f g)
  | not {scope : Option Reference} {tokens : List Token} {t : Token} {f : Filter} :
      Token.isKeyword ['n', 'o', 't'] t = true → Derives ctx .term scope tokens f →
      Derives ctx .term scope (t :: tokens) (.not f)
  | group {scope : Option Reference} {tokens : List Token} {f : Filter} (i j : Nat) :
      Derives ctx .disjunction scope tokens f →
      Derives ctx .term scope (.opening '(' i :: (tokens ++ [.closing ')' j])) (.group f)
  | complex {tokens : List Token} {word : List Char} {attr : Reference} {f : Filter}
      (start i j : Nat) :
      ctx.Names none word attr → attr.isSub = false →
      Derives ctx .disjunction (some attr) tokens f →
      Derives ctx .term none
        (.word word start :: .opening '[' i :: (tokens ++ [.closing ']' j])) (.complex attr f)
  | unary {scope : Option Reference} {path word : List Char} {attr : Reference}
      {op : UnaryOperator} (i j : Nat) :
      ctx.Names scope path attr → op ∈ ctx.operators.unary →
      op.key = Text.lower (String.ofList word) →
      Derives ctx .term scope [.word path i, .word word j] (.leaf ⟨attr, .unary op⟩)
  | binary {scope : Option Reference} {path word operand : List Char} {attr : Reference}
      {op : BinaryOperator} {lit : Literal} (i j k : Nat) :
      ctx.Names scope path attr → op ∈ ctx.operators.binary →
      op.key = Text.lower (String.ofList word) →
      ctx.IsOperand operand lit → op.supportsOperand lit = true →
      Derives ctx .term scope [.word path i, .word word j, .word operand k]
        (.leaf ⟨attr, .binary op lit⟩)

/-! ## What derives is balanced and uncut -/

/-- Every word stands for a piece of the text. -/
def Sourced (ctx : FilterContext) (tokens : List Token) : Prop :=
  ∀ word start, .word word start ∈ tokens → ∃ source, ctx.masked.Spells word source

/-- Fewer tokens stand for fewer pieces. -/
theorem Sourced.mono {ctx : FilterContext} {tokens part : List Token} (h : ctx.Sourced tokens)
    (hpart : ∀ t ∈ part, t ∈ tokens) : ctx.Sourced part :=
  fun word start hmem => h word start (hpart _ hmem)

/-- Tokens that are not cut before they are read as a phrase. -/
def Fits : Phrase → List Token → Prop
  | .disjunction, _ => True
  | .conjunction, tokens => Token.Uncut ['o', 'r'] tokens
  | .term, tokens => Token.Uncut ['o', 'r'] tokens ∧ Token.Uncut ['a', 'n', 'd'] tokens

/-- A keyword is a word, in any casing. -/
theorem exists_word_of_isKeyword {keyword : List Char} {t : Token}
    (h : Token.isKeyword keyword t = true) :
    ∃ word start, t = .word word start ∧ Text.sameAscii word keyword = true := by
  cases t with
  | word word start => exact ⟨word, start, rfl, h⟩
  | opening => exact absurd h (by simp [Token.isKeyword])
  | closing => exact absurd h (by simp [Token.isKeyword])

/-- A word is one keyword at most. -/
theorem sameAscii_eq_false {word a b : List Char} (h : Text.sameAscii word a = true)
    (hab : Text.sameAscii a b = false) : Text.sameAscii word b = false := by
  unfold Text.sameAscii at *
  rwa [beq_iff_eq.mp h]

variable {ctx : FilterContext} {phrase : Phrase} {scope : Option Reference} {tokens : List Token}
  {f : Filter}

/-- Brackets match in what derives, as every bracket comes with its partner. -/
theorem Derives.balanced (h : Derives ctx phrase scope tokens f) : Token.Balanced tokens := by
  induction h with
  | conjunction _ ih => exact ih
  | or _ ht _ ihl ihr =>
    obtain ⟨word, start, rfl, -⟩ := exists_word_of_isKeyword ht
    exact ihl.append (ihr.word word start)
  | term _ ih => exact ih
  | and _ ht _ ihl ihr =>
    obtain ⟨word, start, rfl, -⟩ := exists_word_of_isKeyword ht
    exact ihl.append (ihr.word word start)
  | not ht _ ih =>
    obtain ⟨word, start, rfl, -⟩ := exists_word_of_isKeyword ht
    exact ih.word word start
  | group i j _ ih => exact .group i j .round ih .nil
  | complex start i j _ _ _ ih => exact .word _ start (.group i j .square ih .nil)
  | unary i j => exact .word _ i (.word _ j .nil)
  | binary i j k => exact .word _ i (.word _ j (.word _ k .nil))

/-- Nothing derives from no tokens. -/
theorem Derives.ne_nil (h : Derives ctx phrase scope tokens f) : tokens ≠ [] := by
  induction h with
  | conjunction _ ih => exact ih
  | term _ ih => exact ih
  | _ => simp

/-- The reader would not cut what derives as a phrase. -/
theorem Derives.fits (hops : ctx.operators.WellFormed) (hsource : ctx.Sourced tokens)
    (h : Derives ctx phrase scope tokens f) : Fits phrase tokens := by
  -- a word that is no keyword may stand before what is not cut
  have hfree : ∀ {word : List Char} {start : Nat} {rest : List Token}, isFree word →
      Fits .term rest → Fits .term (.word word start :: rest) := by
    intro word start rest hw hrest
    have hor := hw "or" (by decide)
    have hand := hw "and" (by decide)
    exact ⟨Token.uncut_word.mpr ⟨hor, hrest.1⟩, Token.uncut_word.mpr ⟨hand, hrest.2⟩⟩
  have hnil : Fits .term [] := ⟨Token.uncut_nil _, Token.uncut_nil _⟩
  induction h with
  | conjunction => exact trivial
  | or => exact trivial
  | term _ ih => exact (ih hsource).1
  -- `and` is no `or`, and neither side would be cut at one
  | @and _ left right t _ _ hl ht hr ihl ihr =>
    have hfl := ihl (hsource.mono fun t h => List.mem_append_left _ h)
    have hfr := ihr (hsource.mono fun t h => List.mem_append_right _ (List.mem_cons_of_mem _ h))
    obtain ⟨word, start, rfl, hword⟩ := exists_word_of_isKeyword ht
    exact hfl.append hl.balanced
      (Token.uncut_word.mpr ⟨sameAscii_eq_false hword (by decide), hfr.1⟩)
  | not ht hr ih =>
    have hfr := ih (hsource.mono fun t h => List.mem_cons_of_mem _ h)
    obtain ⟨word, start, rfl, hword⟩ := exists_word_of_isKeyword ht
    exact ⟨Token.uncut_word.mpr ⟨sameAscii_eq_false hword (by decide), hfr.1⟩,
      Token.uncut_word.mpr ⟨sameAscii_eq_false hword (by decide), hfr.2⟩⟩
  -- brackets around it protect what stands inside
  | group i j hin =>
    exact ⟨(Token.uncut_group hin.balanced).mpr (Token.uncut_nil _),
      (Token.uncut_group hin.balanced).mpr (Token.uncut_nil _)⟩
  | complex start i j hname _ hin =>
    exact hfree hname.free ⟨(Token.uncut_group hin.balanced).mpr (Token.uncut_nil _),
      (Token.uncut_group hin.balanced).mpr (Token.uncut_nil _)⟩
  | unary i j hname hop hkey =>
    refine hfree hname.free (hfree (hops.isFree ?_) hnil)
    exact List.mem_append_left _ (List.mem_map.mpr ⟨_, hop, hkey⟩)
  | @binary _ _ _ operand _ _ _ i j k hname hop hkey hlit =>
    obtain ⟨source, hspell⟩ := hsource operand k (by simp)
    unfold IsOperand at hlit
    rw [Masked.unmask_of_spells hspell] at hlit
    refine hfree hname.free (hfree (hops.isFree ?_) (hfree (isFree_of_operand hspell hlit) hnil))
    exact List.mem_append_right _ (List.mem_map.mpr ⟨_, hop, hkey⟩)

end FilterContext

end Scim
