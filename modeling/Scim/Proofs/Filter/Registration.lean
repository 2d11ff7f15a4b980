import Scim.Proofs.Filter.Canonical
import Scim.Proofs.Filter.Reading
import Scim.Proofs.Filter.Unmasking

/-!
  # Registered operators can be used

  A set of operators is reached from the empty one by registrations, of the operators of the protocol
  or of a single one (`Reached`).  Tokens are checked and stored in lower case, keywords are
  recognised up to the letters a to z, and the words of a filter are looked up as they stand there.
  The three fit together:

    * a token is refused if and only if it is no word, a keyword, or taken (`Admits`);
    * a text with the lower-case form of a token is a word as well (`isToken_of_lower_eq`), so it is
      read as one, and no keyword, so that a filter is not cut there (`uncut_placed`);
    * so every operator is reached by filters, in every spelling of its token (`Reached.usable`).
-/

namespace Scim

/-! ## Tokens of operators -/

namespace Operators

/-- A text that can be a token: there is something in it, and nothing that would break a word. -/
structure IsToken (token : String) : Prop where
  nonempty : token.toList ≠ []
  unbroken : ∀ c ∈ token.toList, breaksWord c = false

theorem breaksWord_of_isPlain {c : Char} (h : isPlain c = true) : breaksWord c = false := by
  rw [isPlain, Bool.and_eq_true, Bool.not_eq_true'] at h
  exact h.1

theorem isToken_of_plain {token : String} (hne : token.toList ≠ [])
    (h : ∀ c ∈ token.toList, isPlain c = true) : IsToken token :=
  ⟨hne, fun c hc => breaksWord_of_isPlain (h c hc)⟩

/-- Texts with one lower-case form can be tokens or can not, all of them. -/
theorem isToken_of_lower_eq {s t : String} (h : Text.lower s = Text.lower t) (hs : IsToken s) :
    IsToken t := by
  constructor
  · -- lower-casing takes nothing away
    intro hnil
    have hlower : Text.lowerFrom [] s.toList = [] := by
      have hchars := congrArg String.toList h
      rwa [Text.lower, Text.lower, String.toList_ofList, String.toList_ofList, hnil] at hchars
    exact Text.lowerFrom_ne_nil hs.nonempty [] hlower
  · intro c hc
    cases hcase : Text.caseless c with
    | true =>
      -- a caseless character of one of them is one of the other
      apply hs.unbroken
      rwa [← Text.mem_lower hcase, h, Text.mem_lower hcase]
    | false =>
      exact breaksWord_of_isPlain (isPlain_of_caseless_eq_false hcase).1

/-- A token may be stored in lower case. -/
theorem isToken_lower {token : String} : IsToken (Text.lower token) ↔ IsToken token :=
  ⟨isToken_of_lower_eq (Text.lower_lower token),
    isToken_of_lower_eq (Text.lower_lower token).symm⟩

/-- The tokens of all operators, as they were registered. -/
def tokens (ops : Operators) : List String :=
  ops.unary.map UnaryOperator.token ++ ops.binary.map BinaryOperator.token

/-- Operators are found by the lower-case forms of their tokens. -/
theorem keys_eq (ops : Operators) : ops.keys = ops.tokens.map Text.lower := by
  simp only [keys, tokens, List.map_append, List.map_map]
  rfl

/-- What is asked of the token of a further operator. -/
structure Admits (ops : Operators) (token : String) : Prop where
  word : IsToken token
  free : Text.lower token ∉ keywords
  new : Text.lower token ∉ ops.keys

/-- A token passes its check just if it is admitted. -/
theorem tokenError?_eq_none_iff (ops : Operators) (token : String) :
    ops.tokenError? token = none ↔ ops.Admits token := by
  -- the check is made on the lower-case form
  have hword : ((Text.lower token).toList.isEmpty || (Text.lower token).toList.any breaksWord) =
      false ↔ IsToken token := by
    rw [← isToken_lower, Bool.or_eq_false_iff, List.isEmpty_eq_false_iff, List.any_eq_false]
    constructor
    · rintro ⟨hne, hunbroken⟩
      exact ⟨hne, fun c hc => by simpa using hunbroken c hc⟩
    · rintro ⟨hne, hunbroken⟩
      exact ⟨hne, fun c hc => by simp [hunbroken c hc]⟩
  have hfree : (keywords.contains (Text.lower token) || ops.contains (Text.lower token)) = false ↔
      Text.lower token ∉ keywords ∧ Text.lower token ∉ ops.keys := by
    rw [Bool.or_eq_false_iff, ← Bool.not_eq_true, ← Bool.not_eq_true, List.contains_iff_mem,
      contains_iff, Text.lower_lower]
  dsimp only [tokenError?]
  split
  · rename_i hbad
    constructor
    · intro h
      exact absurd h (by simp)
    · intro h
      rw [hword.mpr h.word] at hbad
      exact absurd hbad (by decide)
  · rename_i hgood
    rw [Bool.not_eq_true, hword] at hgood
    split
    · rename_i htaken
      constructor
      · intro h
        exact absurd h (by simp)
      · intro h
        rw [hfree.mpr ⟨h.free, h.new⟩] at htaken
        exact absurd htaken (by decide)
    · rename_i hnew
      rw [Bool.not_eq_true, hfree] at hnew
      exact ⟨fun _ => ⟨hgood, hnew.1, hnew.2⟩, fun _ => rfl⟩

/-! ## Registrations -/

/-- A unary operator is added if its token is admitted, behind the others. -/
theorem addUnary_eq_ok {ops ops' : Operators} {op : UnaryOperator} :
    ops.addUnary op = .ok ops' ↔
      ops.Admits op.token ∧ ops' = { ops with unary := ops.unary ++ [op] } := by
  rw [← tokenError?_eq_none_iff, addUnary]
  cases ops.tokenError? op.token <;> simp [eq_comm]

/-- A binary operator is added if its token is admitted, behind the others. -/
theorem addBinary_eq_ok {ops ops' : Operators} {op : BinaryOperator} :
    ops.addBinary op = .ok ops' ↔
      ops.Admits op.token ∧ ops' = { ops with binary := ops.binary ++ [op] } := by
  rw [← tokenError?_eq_none_iff, addBinary]
  cases ops.tokenError? op.token <;> simp [eq_comm]

/-- What is asked of the tokens of operators that are added one after the other. -/
structure AdmitsAll (ops : Operators) (tokens : List String) : Prop where
  each : ∀ token ∈ tokens, ops.Admits token
  nodup : (tokens.map Text.lower).Nodup

/-- The first of several tokens takes only itself away from those after it. -/
theorem admitsAll_cons_iff {ops next : Operators} {token : String} {tokens : List String}
    (hkeys : ∀ key, key ∈ next.keys ↔ key = Text.lower token ∨ key ∈ ops.keys) :
    ops.AdmitsAll (token :: tokens) ↔ ops.Admits token ∧ next.AdmitsAll tokens := by
  constructor
  · rintro ⟨heach, hnodup⟩
    rw [List.map_cons, List.nodup_cons] at hnodup
    refine ⟨heach token List.mem_cons_self, ⟨?_, hnodup.2⟩⟩
    intro other hother
    have h := heach other (List.mem_cons_of_mem _ hother)
    refine ⟨h.word, h.free, ?_⟩
    rw [hkeys, not_or]
    refine ⟨?_, h.new⟩
    intro heq
    exact hnodup.1 (List.mem_map.mpr ⟨other, hother, heq⟩)
  · rintro ⟨hfirst, heach, hnodup⟩
    have hnew : ∀ other ∈ tokens, Text.lower other ≠ Text.lower token ∧
        Text.lower other ∉ ops.keys := by
      intro other hother
      have hnot := (heach other hother).new
      rwa [hkeys, not_or] at hnot
    constructor
    · intro other hother
      rcases List.mem_cons.mp hother with rfl | hother
      · exact hfirst
      · have h := heach other hother
        exact ⟨h.word, h.free, (hnew other hother).2⟩
    · rw [List.map_cons, List.nodup_cons]
      refine ⟨?_, hnodup⟩
      intro hmem
      obtain ⟨other, hother, heq⟩ := List.mem_map.mp hmem
      exact (hnew other hother).1 heq

/-- Operators are added in a row if all their tokens are admitted. -/
theorem foldlM_eq_ok {α : Type} {token : α → String} {add : Operators → α → Except BuildError Operators}
    (put : Operators → List α → Operators)
    (hadd : ∀ ops ops' a, add ops a = .ok ops' ↔ ops.Admits (token a) ∧ ops' = put ops [a])
    (hkeys : ∀ ops a key, key ∈ (put ops [a]).keys ↔ key = Text.lower (token a) ∨ key ∈ ops.keys)
    (hnil : ∀ ops, put ops [] = ops)
    (hcons : ∀ ops a list, put (put ops [a]) list = put ops (a :: list)) (list : List α) :
    ∀ ops ops', list.foldlM add ops = .ok ops' ↔
      ops.AdmitsAll (list.map token) ∧ ops' = put ops list := by
  induction list with
  | nil =>
    intro ops ops'
    rw [List.foldlM_nil, hnil]
    constructor
    · intro h
      exact ⟨⟨by simp, by simp⟩, (Except.ok.inj h).symm⟩
    · rintro ⟨-, rfl⟩
      rfl
  | cons a list ih =>
    intro ops ops'
    rw [List.foldlM_cons, bind_eq_ok, List.map_cons, admitsAll_cons_iff (hkeys ops a)]
    constructor
    · -- the first operator is added, and the others to the set with it
      rintro ⟨next, ha, hrest⟩
      obtain ⟨hfirst, rfl⟩ := (hadd ops next a).mp ha
      obtain ⟨hmore, rfl⟩ := (ih _ ops').mp hrest
      exact ⟨⟨hfirst, hmore⟩, hcons ops a list⟩
    · rintro ⟨⟨hfirst, hmore⟩, rfl⟩
      exact ⟨_, (hadd ops _ a).mpr ⟨hfirst, rfl⟩, (ih _ _).mpr ⟨hmore, (hcons ops a list).symm⟩⟩

/-- Unary operators add their keys. -/
theorem mem_keys_unary {ops : Operators} {list : List UnaryOperator} {key : String} :
    key ∈ keys { ops with unary := ops.unary ++ list } ↔
      key ∈ list.map UnaryOperator.key ∨ key ∈ ops.keys := by
  simp only [keys, List.map_append, List.mem_append]
  tauto

/-- Binary operators add their keys. -/
theorem mem_keys_binary {ops : Operators} {list : List BinaryOperator} {key : String} :
    key ∈ keys { ops with binary := ops.binary ++ list } ↔
      key ∈ list.map BinaryOperator.key ∨ key ∈ ops.keys := by
  simp only [keys, List.map_append, List.mem_append]
  tauto

/-- Several unary operators are added if all their tokens are admitted. -/
theorem foldlM_addUnary_eq_ok {list : List UnaryOperator} {ops ops' : Operators} :
    list.foldlM addUnary ops = .ok ops' ↔
      ops.AdmitsAll (list.map UnaryOperator.token) ∧
        ops' = { ops with unary := ops.unary ++ list } := by
  refine foldlM_eq_ok (fun ops list => { ops with unary := ops.unary ++ list })
    (fun _ _ _ => addUnary_eq_ok) ?_ ?_ ?_ list ops ops'
  · intro ops a key
    rw [mem_keys_unary, List.map_singleton, List.mem_singleton]
    rfl
  · intro ops
    rw [List.append_nil]
  · intro ops a list
    rw [List.append_assoc, List.singleton_append]

theorem foldlM_addBinary_eq_ok {list : List BinaryOperator} {ops ops' : Operators} :
    list.foldlM addBinary ops = .ok ops' ↔
      ops.AdmitsAll (list.map BinaryOperator.token) ∧
        ops' = { ops with binary := ops.binary ++ list } := by
  refine foldlM_eq_ok (fun ops list => { ops with binary := ops.binary ++ list })
    (fun _ _ _ => addBinary_eq_ok) ?_ ?_ ?_ list ops ops'
  · intro ops a key
    rw [mem_keys_binary, List.map_singleton, List.mem_singleton]
    rfl
  · intro ops
    rw [List.append_nil]
  · intro ops a list
    rw [List.append_assoc, List.singleton_append]

/-- The operators of the protocol are added if all their tokens are admitted, for they take nothing
    away from each other. -/
theorem addStandard_eq_ok {ops ops' : Operators} :
    ops.addStandard = .ok ops' ↔ (∀ token ∈ standard.tokens, ops.Admits token) ∧
      ops' = ⟨ops.unary ++ standard.unary, ops.binary ++ standard.binary⟩ := by
  have hnodup : standard.keys.Nodup := built_standard.wellFormed.nodup
  rw [keys, List.nodup_append] at hnodup
  obtain ⟨hunary, hbinary, hapart⟩ := hnodup
  rw [addStandard, bind_eq_ok]
  constructor
  · rintro ⟨next, h, h'⟩
    obtain ⟨hall, rfl⟩ := foldlM_addUnary_eq_ok.mp h
    obtain ⟨hall', rfl⟩ := foldlM_addBinary_eq_ok.mp h'
    refine ⟨?_, rfl⟩
    intro token hmem
    rcases List.mem_append.mp hmem with hmem | hmem
    · exact hall.each token hmem
    · have hadmits := hall'.each token hmem
      have hnew := hadmits.new
      rw [mem_keys_unary, not_or] at hnew
      exact ⟨hadmits.word, hadmits.free, hnew.2⟩
  · rintro ⟨hall, rfl⟩
    refine ⟨_, foldlM_addUnary_eq_ok.mpr ⟨⟨?_, ?_⟩, rfl⟩,
      foldlM_addBinary_eq_ok.mpr ⟨⟨?_, ?_⟩, rfl⟩⟩
    · intro token hmem
      exact hall token (List.mem_append_left _ hmem)
    · rw [List.map_map]
      exact hunary
    · intro token hmem
      have hadmits := hall token (List.mem_append_right _ hmem)
      refine ⟨hadmits.word, hadmits.free, ?_⟩
      rw [mem_keys_unary, not_or]
      refine ⟨?_, hadmits.new⟩
      -- no token of the protocol is one of both kinds
      intro hkey
      obtain ⟨op, hop, rfl⟩ := List.mem_map.mp hmem
      exact hapart _ hkey _ (List.mem_map_of_mem hop) rfl
    · rw [List.map_map]
      exact hbinary

end Operators

/-! ## Words in a row -/

/-- Words, each one after a blank. -/
def spaced : List (List Char) → List Char
  | [] => []
  | word :: rest => ' ' :: (word ++ spaced rest)

/-- The tokens of such words, from the place `pos` on. -/
def Token.placed (pos : Nat) : List (List Char) → List Token
  | [] => []
  | chars :: rest => .word chars (pos + 1) :: placed (pos + 1 + chars.length) rest

theorem Token.length_placed (words : List (List Char)) :
    ∀ pos, (Token.placed pos words).length = words.length := by
  induction words with
  | nil => exact fun _ => rfl
  | cons chars rest ih =>
    intro pos
    rw [Token.placed, List.length_cons, List.length_cons, ih]

/-- What stands in such a row is a blank or stands in one of the words. -/
theorem mem_spaced {words : List (List Char)} {c : Char} (h : c ∈ spaced words) :
    c = ' ' ∨ ∃ word ∈ words, c ∈ word := by
  induction words with
  | nil => exact absurd h List.not_mem_nil
  | cons word rest ih =>
    rcases List.mem_cons.mp h with h | h
    · exact .inl h
    · rcases List.mem_append.mp h with h | h
      · exact .inr ⟨word, List.mem_cons_self, h⟩
      · rcases ih h with h | ⟨other, hother, h⟩
        · exact .inl h
        · exact .inr ⟨other, List.mem_cons_of_mem _ hother, h⟩

/-- What follows a word in a row ends it. -/
theorem head?_spaced (words : List (List Char)) :
    ∀ c ∈ (spaced words).head?, Masked.isUnbroken c = false := by
  intro c hc
  cases words with
  | nil => exact absurd hc (by simp [spaced])
  | cons word rest =>
    obtain rfl : ' ' = c := by simpa [spaced] using hc
    decide

/-- Each of the words is one token. -/
theorem Token.readFrom_spaced {words : List (List Char)}
    (h : ∀ word ∈ words, word ≠ [] ∧ ∀ c ∈ word, Masked.isUnbroken c = true) :
    ∀ pos, Token.readFrom pos [] (spaced words) = Token.placed pos words := by
  induction words with
  | nil =>
    intro pos
    rfl
  | cons word rest ih =>
    intro pos
    obtain ⟨hne, hword⟩ := h word List.mem_cons_self
    have hblank : Token.readFrom pos [] (spaced (word :: rest)) =
        Token.readFrom (pos + 1) [] (word ++ spaced rest) := rfl
    rw [hblank, Masked.readFrom_word hword hne (head?_spaced rest),
      ih fun other hother => h other (List.mem_cons_of_mem _ hother)]
    rfl

/-- A character that breaks no token breaks no word of a filter. -/
theorem isUnbroken_of_breaksWord {c : Char} (h : Operators.breaksWord c = false) :
    Masked.isUnbroken c = true := by
  simp only [Operators.breaksWord, Bool.or_eq_false_iff] at h
  simp [Masked.isUnbroken, Token.isOpening, Token.isClosing, h]

/-- Text without brackets has none that is not matched. -/
theorem Token.unbalanced?_of_unbroken {cs : List Char}
    (h : ∀ c ∈ cs, c = ' ' ∨ Masked.isUnbroken c = true) : Token.unbalanced? [] cs = none := by
  have hnone : ∀ c ∈ cs, Token.isOpening c = false ∧ Token.isClosing c = false := by
    intro c hc
    rcases h c hc with rfl | hunbroken
    · decide
    · simp only [Masked.isUnbroken, Bool.and_eq_true, Bool.not_eq_true'] at hunbroken
      exact hunbroken.1
  rw [← List.nil_append cs, Token.unbalanced?_append_left hnone]
  rfl

/-- A word and more words in a row are read as so many tokens.  The first one may have quotes in it,
    and what it is read from stands for it; the others stand as they are. -/
theorem Filter.exists_read_spaced (catalog : Catalog) (operators : Operators) {first : List Char}
    (words : List (List Char)) (hfirst : isWord first) (hne : first ≠ [])
    (hwords : ∀ word ∈ words, word ≠ [] ∧ ∀ c ∈ word, Operators.breaksWord c = false) :
    ∃ (m : Masked) (word : List Char), m.Spells word first ∧
      Filter.read catalog operators (first ++ spaced words) =
        FilterContext.readFilter ⟨m, catalog, operators⟩
          (.word word 0 :: Token.placed word.length words) := by
  obtain ⟨word, lits, hmask, hspells⟩ := Masked.spells_of_isWord 0 first hfirst
  have hplain : ∀ c ∈ spaced words, c = ' ' ∨ Operators.breaksWord c = false := by
    intro c hc
    rcases mem_spaced hc with rfl | ⟨other, hother, hc⟩
    · exact .inl rfl
    · exact .inr ((hwords other hother).2 c hc)
  have hquote : '"' ∉ spaced words := by
    intro hmem
    rcases hplain _ hmem with h | h
    · exact absurd h (by decide)
    · exact absurd h (by decide)
  have hmasked : Masked.mask (first ++ spaced words) = (⟨word ++ spaced words, lits⟩, none) := by
    rw [Masked.mask, Masked.maskFrom_append 0 first (spaced words) hmask,
      Masked.maskFrom_of_not_mem hquote]
    simp
  have hspell : Masked.Spells ⟨word ++ spaced words, lits⟩ word first := by
    apply hspells
    intro i lit hi
    rwa [Nat.zero_add]
  have hword : word ≠ [] := fun h => hne (hspell.eq_nil_iff.mp h)
  have htokens : Token.readAll ⟨word ++ spaced words, lits⟩ =
      .word word 0 :: Token.placed word.length words := by
    rw [Token.readAll, Masked.readFrom_word hspell.isUnbroken hword (head?_spaced words),
      Token.readFrom_spaced, Nat.zero_add]
    intro other hother
    exact ⟨(hwords other hother).1, fun c hc =>
      isUnbroken_of_breaksWord ((hwords other hother).2 c hc)⟩
  have hbalanced : Token.unbalanced? [] (word ++ spaced words) = none := by
    apply Token.unbalanced?_of_unbroken
    intro c hc
    rcases List.mem_append.mp hc with hc | hc
    · exact .inr (hspell.isUnbroken c hc)
    · exact (hplain c hc).imp_right isUnbroken_of_breaksWord
  refine ⟨⟨word ++ spaced words, lits⟩, word, hspell, ?_⟩
  unfold Filter.read
  simp only [hmasked, hbalanced, htokens]

namespace FilterContext

variable {ctx : FilterContext} {tokens : List Token} {f : Filter}

/-- Words that are no keywords are not cut. -/
theorem uncut_placed {keyword : String} (hk : keyword ∈ Operators.keywords)
    {words : List (List Char)} (h : ∀ word ∈ words, isFree word) :
    ∀ pos, Token.Uncut keyword.toList (Token.placed pos words) := by
  induction words with
  | nil =>
    intro pos
    exact Token.uncut_nil _
  | cons word rest ih =>
    intro pos
    exact Token.uncut_word.mpr ⟨h word List.mem_cons_self keyword hk,
      ih (fun other hother => h other (List.mem_cons_of_mem _ hother)) _⟩

/-- A filter that is not cut is one term. -/
theorem readFilter_of_readTerm (hor : Token.Uncut "or".toList tokens)
    (hand : Token.Uncut "and".toList tokens) (hne : tokens ≠ [])
    (h : ctx.readTerm tokens.length none tokens = .ok f) : ctx.readFilter tokens = .ok f :=
  readChain_part hor hne (readChain_part hand hne h)

end FilterContext

/-- A word without quotes and masks stands for itself. -/
theorem Masked.spells_of_plain {m : Masked} {word : List Char}
    (h : ∀ c ∈ word, isPlain c = true) : m.Spells word word := by
  induction word with
  | nil => exact .nil
  | cons c rest ih =>
    exact .char c (h c List.mem_cons_self) (ih fun d hd => h d (List.mem_cons_of_mem c hd))

/-! ## Comparisons with registered operators -/

/-- A word that is read as the name of an attribute in filters. -/
structure NamesAttribute (catalog : Catalog) (x : String) (attr : Reference) : Prop where
  word : isWord x.toList
  free : isFree x.toList
  parsed : Reference.parse catalog x = .ok attr

/-- Every path of no schema in particular is one, unless it is a keyword. -/
theorem namesAttribute_path (catalog : Catalog) {p : Path} (h : isFree p.text.toList) :
    NamesAttribute catalog p.text (.plain p) where
  word := isWord_of_plain isPlain_of_mem_path
  free := h
  parsed := Reference.parse_eq_ok_plain.mpr rfl

namespace NamesAttribute

variable {catalog : Catalog} {operators : Operators} {x : String} {attr : Reference}

/-- Nothing names no attribute. -/
theorem ne_nil (h : NamesAttribute catalog x attr) : x.toList ≠ [] := by
  intro hnil
  have hparsed := h.parsed
  rw [← String.ofList_toList (s := x), hnil] at hparsed
  cases hparsed

/-- What names an attribute does so in filters, whatever literals there are. -/
theorem names (h : NamesAttribute catalog x attr) (operators : Operators) {m : Masked}
    {word : List Char} (hspell : m.Spells word x.toList) :
    FilterContext.Names ⟨m, catalog, operators⟩ none word attr where
  free := (isFree_iff_of_spells hspell).mpr h.free
  parsed := by
    show Reference.parse catalog (String.ofList (m.unmask word)) = .ok attr
    rw [Masked.unmask_of_spells hspell, String.ofList_toList]
    exact h.parsed
  plain := by simp

/-- A path and words that can be operators, and are no keywords, are read as one term. -/
theorem parse_spaced (h : NamesAttribute catalog x attr) (words : List String)
    (hwords : ∀ word ∈ words, Operators.IsToken word ∧ isFree word.toList) {text : String}
    (htext : text.toList = x.toList ++ spaced (words.map String.toList)) {f : Filter}
    (hterm : ∀ (m : Masked) (word : List Char),
      FilterContext.Names ⟨m, catalog, operators⟩ none word attr →
        FilterContext.readTerm ⟨m, catalog, operators⟩ (words.length + 1) none
          (.word word 0 :: Token.placed word.length (words.map String.toList)) = .ok f) :
    Filter.parse catalog operators text = .ok f := by
  have hunbroken : ∀ chars ∈ words.map String.toList,
      chars ≠ [] ∧ ∀ c ∈ chars, Operators.breaksWord c = false := by
    intro chars hmem
    obtain ⟨token, htoken, rfl⟩ := List.mem_map.mp hmem
    exact ⟨(hwords token htoken).1.nonempty, (hwords token htoken).1.unbroken⟩
  obtain ⟨m, word, hspell, hread⟩ :=
    Filter.exists_read_spaced catalog operators _ h.word h.ne_nil hunbroken
  have hname := h.names operators hspell
  -- no word of the row is a keyword, so the filter is one term
  have huncut : ∀ keyword ∈ Operators.keywords, Token.Uncut keyword.toList
      (.word word 0 :: Token.placed word.length (words.map String.toList)) := by
    intro keyword hk
    refine Token.uncut_word.mpr ⟨hname.free keyword hk, FilterContext.uncut_placed hk ?_ _⟩
    intro chars hmem
    obtain ⟨token, htoken, rfl⟩ := List.mem_map.mp hmem
    exact (hwords token htoken).2
  rw [Filter.parse_eq_ok, htext, hread]
  apply FilterContext.readFilter_of_readTerm (huncut "or" (by decide)) (huncut "and" (by decide))
    (by simp)
  rw [List.length_cons, Token.length_placed, List.length_map]
  exact hterm m word hname

end NamesAttribute

namespace Operators.WellFormed

variable {ops : Operators} (hops : ops.WellFormed) {catalog : Catalog} {x s : String}
  {attr : Reference}

include hops

/-- What is looked up as an operator is a word, and no keyword. -/
theorem isToken_and_isFree (hs : Text.lower s ∈ ops.keys) : IsToken s ∧ Scim.isFree s.toList := by
  constructor
  · exact isToken_lower.mp ⟨hops.nonempty _ hs, hops.unbroken _ hs⟩
  · apply hops.isFree
    rwa [String.ofList_toList]

/-- A path and a spelling of a unary operator are read as the test of the path. -/
theorem parse_unary (hx : NamesAttribute catalog x attr) {op : UnaryOperator} (hop : op ∈ ops.unary)
    (hs : Text.lower s = op.key) :
    Filter.parse catalog ops (x ++ " " ++ s) = .ok (.leaf ⟨attr, .unary op⟩) := by
  have hkey : Text.lower s ∈ ops.keys := List.mem_append_left _ (hs ▸ List.mem_map_of_mem hop)
  apply hx.parse_spaced [s]
  · intro word hword
    rw [List.mem_singleton.mp hword]
    exact hops.isToken_and_isFree hkey
  · simp [spaced]
  · intro m word hname
    apply (FilterContext.readTerm_unary_eq_ok hops hname.free).mpr
    exact ⟨attr, hname, op, hop, by rw [String.ofList_toList, hs], rfl⟩

/-- A path, a spelling of a binary operator that takes null, and `null` are read as the comparison
    of the path with null. -/
theorem parse_binary_null (hx : NamesAttribute catalog x attr) {op : BinaryOperator}
    (hop : op ∈ ops.binary) (hs : Text.lower s = op.key)
    (hsupports : op.supportsOperand .null = true) :
    Filter.parse catalog ops (x ++ " " ++ s ++ " null") = .ok (.leaf ⟨attr, .binary op .null⟩) := by
  have hkey : Text.lower s ∈ ops.keys := List.mem_append_right _ (hs ▸ List.mem_map_of_mem hop)
  have hplain : ∀ c ∈ "null".toList, isPlain c = true := List.all_eq_true.mp (by decide +kernel)
  have hnull : IsToken "null" ∧ Scim.isFree "null".toList :=
    ⟨isToken_of_plain (by decide +kernel) hplain, isFree_constants _ (by decide +kernel)⟩
  apply hx.parse_spaced [s, "null"]
  · intro word hword
    rcases List.mem_pair.mp hword with rfl | rfl
    · exact hops.isToken_and_isFree hkey
    · exact hnull
  · simp [spaced]
  · intro m word hname
    have hspell : m.Spells "null".toList "null".toList := Masked.spells_of_plain hplain
    -- `null` is a constant, so it is its own operand
    have hread : FilterContext.IsOperand ⟨m, catalog, ops⟩ "null".toList .null := by
      unfold FilterContext.IsOperand
      rw [Masked.unmask_of_spells hspell]
      exact .inr (by decide +kernel)
    apply (FilterContext.readTerm_binary_eq_ok hops hname.free hspell).mpr
    exact ⟨attr, hname, op, hop, by rw [String.ofList_toList, hs], .null, hread, hsupports, rfl⟩

end Operators.WellFormed

/-! ## Any chain of registrations -/

namespace Operators

/-- The sets of operators that registrations lead to. -/
inductive Reached : Operators → Prop
  | empty : Reached .empty
  | standard {ops ops' : Operators} : Reached ops → ops.addStandard = .ok ops' → Reached ops'
  | unary {ops ops' : Operators} (op : UnaryOperator) :
      Reached ops → ops.addUnary op = .ok ops' → Reached ops'
  | binary {ops ops' : Operators} (op : BinaryOperator) :
      Reached ops → ops.addBinary op = .ok ops' → Reached ops'

/-- What is reached by registrations was added one operator after the other. -/
theorem Reached.wellFormed {ops : Operators} (h : Reached ops) : ops.WellFormed := by
  have hbuilt : Built ops := by
    induction h with
    | empty => exact .empty
    | standard _ hadd ih => exact ih.addStandard hadd
    | unary op _ hadd ih => exact .unary op ih hadd
    | binary op _ hadd ih => exact .binary op ih hadd
  exact hbuilt.wellFormed

/-- The tokens are told apart, and all operators can be used. -/
structure Usable (ops : Operators) : Prop where
  /-- No token is that of two operators, up to case; in particular none is unary and binary. -/
  distinct : (ops.tokens.map Text.lower).Nodup
  apart : ∀ u ∈ ops.unary, ∀ b ∈ ops.binary, Text.lower u.token ≠ Text.lower b.token
  free : ∀ token ∈ ops.tokens, Text.lower token ∉ ["and", "or", "not"]
  /-- As it was registered and as it is stored, a token is not empty and has no blanks, brackets and
      quotes. -/
  words : ∀ token ∈ ops.tokens, IsToken token ∧ IsToken (Text.lower token)
  /-- An operator is found by the spellings of its token, and by no other text. -/
  found_unary : ∀ op ∈ ops.unary, ∀ s,
    ops.unary? s = some op ↔ Text.lower s = Text.lower op.token
  found_binary : ∀ op ∈ ops.binary, ∀ s,
    ops.binary? s = some op ↔ Text.lower s = Text.lower op.token
  /-- Nothing else is found. -/
  contains : ∀ s, ops.contains s = true ↔ ∃ token ∈ ops.tokens, Text.lower s = Text.lower token
  /-- A registration succeeds if and only if the token is a word, no keyword, and not taken; then
      the operator is there beside the others. -/
  add_unary : ∀ op ops', ops.addUnary op = .ok ops' ↔
    ops.Admits op.token ∧ ops' = { ops with unary := ops.unary ++ [op] }
  add_binary : ∀ op ops', ops.addBinary op = .ok ops' ↔
    ops.Admits op.token ∧ ops' = { ops with binary := ops.binary ++ [op] }
  add_standard : ∀ ops', ops.addStandard = .ok ops' ↔
    (∀ token ∈ standard.tokens, ops.Admits token) ∧
      ops' = ⟨ops.unary ++ standard.unary, ops.binary ++ standard.binary⟩
  /-- In every spelling, a unary operator makes a filter with the name of an attribute. -/
  parse_unary : ∀ catalog x attr, NamesAttribute catalog x attr →
    ∀ op ∈ ops.unary, ∀ s, Text.lower s = Text.lower op.token →
      Filter.parse catalog ops (x ++ " " ++ s) = .ok (.leaf ⟨attr, .unary op⟩)
  /-- So does a binary one with `null`, if it takes this as an operand. -/
  parse_binary : ∀ catalog x attr, NamesAttribute catalog x attr →
    ∀ op ∈ ops.binary, op.supportsOperand .null = true →
      ∀ s, Text.lower s = Text.lower op.token →
        Filter.parse catalog ops (x ++ " " ++ s ++ " null") = .ok (.leaf ⟨attr, .binary op .null⟩)

/-- Whatever operators are registered in whatever order, they can all be used. -/
theorem Reached.usable {ops : Operators} (h : Reached ops) : Usable ops := by
  have hformed := h.wellFormed
  have hkey : ∀ token ∈ ops.tokens, Text.lower token ∈ ops.keys := by
    intro token hmem
    rw [keys_eq]
    exact List.mem_map_of_mem hmem
  constructor
  case distinct => exact keys_eq ops ▸ hformed.nodup
  case apart =>
    intro u hu b hb
    have hnodup := hformed.nodup
    rw [keys, List.nodup_append] at hnodup
    exact hnodup.2.2 _ (List.mem_map_of_mem hu) _ (List.mem_map_of_mem hb)
  case free =>
    intro token hmem
    exact hformed.reserved _ (hkey token hmem)
  case words =>
    intro token hmem
    have htoken := (hformed.isToken_and_isFree (hkey token hmem)).1
    exact ⟨htoken, isToken_lower.mpr htoken⟩
  case found_unary =>
    intro op hop s
    rw [hformed.unary?_eq_some_iff, and_iff_right hop]
    exact eq_comm
  case found_binary =>
    intro op hop s
    rw [hformed.binary?_eq_some_iff, and_iff_right hop]
    exact eq_comm
  case contains =>
    intro s
    rw [contains_iff, keys_eq, List.mem_map]
    constructor
    · rintro ⟨token, hmem, heq⟩
      exact ⟨token, hmem, heq.symm⟩
    · rintro ⟨token, hmem, heq⟩
      exact ⟨token, hmem, heq.symm⟩
  case add_unary =>
    intro op ops'
    exact addUnary_eq_ok
  case add_binary =>
    intro op ops'
    exact addBinary_eq_ok
  case add_standard =>
    intro ops'
    exact addStandard_eq_ok
  case parse_unary =>
    intro catalog x attr hx op hop s hs
    exact hformed.parse_unary hx hop hs
  case parse_binary =>
    intro catalog x attr hx op hop hsupports s hs
    exact hformed.parse_binary_null hx hop hs hsupports

/-- Whether there is no value. -/
def absent : UnaryOperator := ⟨"Ab", fun value => !value.isPresent⟩

/-- The operators of the protocol and `absent`. -/
def withAbsent : Operators := ⟨standard.unary ++ [absent], standard.binary⟩

/-- The path `x`. -/
def pathX : Path := ⟨⟨"x", by decide +kernel⟩, none⟩

/-- After `absent` was added to the operators of the protocol, `x AB` tests for it, and `x EQ null`
    is a comparison. -/
theorem usable_withAbsent : Reached withAbsent ∧
    NamesAttribute .empty "x" (.plain pathX) ∧
    Filter.parse .empty withAbsent "x AB" = .ok (.leaf ⟨.plain pathX, .unary absent⟩) ∧
    Filter.parse .empty withAbsent "x EQ null" =
      .ok (.leaf ⟨.plain pathX, .binary .equal .null⟩) := by
  have hstandard : Operators.empty.addStandard = .ok .standard := by with_unfolding_all rfl
  have hadmits : standard.Admits "Ab" := (tokenError?_eq_none_iff _ _).mp (by decide +kernel)
  have hreached : Reached withAbsent :=
    .unary absent (.standard .empty hstandard) (addUnary_eq_ok.mpr ⟨hadmits, rfl⟩)
  have hx : NamesAttribute .empty "x" (.plain pathX) :=
    namesAttribute_path .empty (p := pathX) (by decide +kernel)
  have husable := hreached.usable
  have hunary := husable.parse_unary .empty "x" _ hx absent (by simp [withAbsent]) "AB"
    (by decide +kernel)
  have hbinary := husable.parse_binary .empty "x" _ hx .equal List.mem_cons_self rfl "EQ"
    (by decide +kernel)
  exact ⟨hreached, hx, hunary, hbinary⟩

end Operators

end Scim
