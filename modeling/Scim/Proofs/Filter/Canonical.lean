import Scim.Proofs.Filter.Grammar
import Scim.Proofs.Filter.Printing
import Scim.Proofs.Reference

/-!
  # Canonical texts of paths, operators and operands

  What stands at the leaves of a filter is written in a canonical form, and that form is a word that
  is read as the same thing again:

    * a path that was read from a word (`Reads.attr`), its schema in the casing of its registration;
    * the token of an operator, in lower case (`Reads.operator`);
    * an operand (`Reads.operand`), its escapes and its sign made uniform.
-/

namespace Scim

/-! ## Characters of words -/

/-- What holds of the characters of ASCII one by one. -/
theorem of_ascii {p q : Char → Bool}
    (h : ∀ n < 128, p (Char.ofNat n) = true → q (Char.ofNat n) = true) {c : Char}
    (hc : c.toNat < 128) (hp : p c = true) : q c = true := by
  have hq := h c.toNat hc
  rw [Char.ofNat_toNat] at hq
  exact hq hp

/-- Characters of numbers are neither blanks nor brackets nor quotes. -/
theorem isPlain_of_isNumeric {c : Char} (h : Json.isNumeric c = true) : isPlain c = true := by
  refine of_ascii (p := Json.isNumeric) (q := isPlain) (by decide +kernel) ?_ h
  -- all of them are ASCII, and there it can be looked up
  have hlt : c = '+' ∨ c = '-' ∨ c = '.' ∨ c.isAlpha = true ∨ c.isDigit = true := by
    simp only [Json.isNumeric, Char.isAlphanum, Bool.or_eq_true, beq_iff_eq] at h
    tauto
  rcases hlt with rfl | rfl | rfl | h | h
  · decide
  · decide
  · decide
  · exact Text.toNat_lt_of_isAlpha h
  · have h9 : '9'.val.toNat = 57 := rfl
    show c.val.toNat < 128
    simp only [Char.isDigit, Bool.and_eq_true, decide_eq_true_eq, ge_iff_le,
      UInt32.le_iff_toNat_le] at h
    omega

/-- Characters of names are neither blanks nor brackets nor quotes. -/
theorem isPlain_of_isNameChar {c : Char} (h : Name.isNameChar c = true) : isPlain c = true := by
  refine of_ascii (p := Name.isNameChar) (q := isPlain) (by decide +kernel) ?_ h
  -- the ranges of names end in ASCII
  have h9 : '9'.val.toNat = 57 := rfl
  have hz : 'z'.val.toNat = 122 := rfl
  have hZ : 'Z'.val.toNat = 90 := rfl
  simp only [Name.isNameChar, Name.isLetter, Bool.or_eq_true, Bool.and_eq_true, decide_eq_true_eq,
    beq_iff_eq, Char.le_def, UInt32.le_iff_toNat_le] at h
  show c.val.toNat < 128
  rcases h with (((h | h) | rfl) | rfl) | rfl
  · omega
  · omega
  · decide
  · decide
  · decide

/-- Characters of paths are those of names, and dots. -/
theorem isPlain_of_mem_path {p : Path} : ∀ c ∈ p.text.toList, isPlain c = true := by
  intro c hc
  rcases Path.mem_text hc with h | rfl
  · exact isPlain_of_isNameChar h
  · decide

/-! ## Paths -/

/-- Keywords are made of letters. -/
theorem isFree_of_mem {word : List Char} {c : Char} (hmem : c ∈ word) (hc : c.isAlpha = false) :
    isFree word := by
  intro keyword hk
  cases hsame : Text.sameAscii word keyword.toList with
  | false => rfl
  | true =>
    rw [Text.isAlpha_of_sameAscii hsame (isAlpha_of_keyword keyword hk).1 c hmem] at hc
    exact absurd hc (by decide)

/-- A word with a literal in it is no keyword, and any other stands for itself. -/
theorem isFree_iff_of_spells {m : Masked} {word source : List Char}
    (h : m.Spells word source) : isFree word ↔ isFree source := by
  rcases h.eq_or_mem with rfl | ⟨hw, hs⟩
  · rfl
  · exact ⟨fun _ => isFree_of_mem hs (by decide), fun _ => isFree_of_mem hw (by decide)⟩

/-- What stands before a colon and a path is a word if all of it is. -/
theorem isWord_append_path {uri : List Char} (p : Path) :
    isWord (uri ++ ':' :: p.text.toList) ↔ isWord uri := by
  refine isWord_append_plain fun c hc => ?_
  rcases List.mem_cons.mp hc with rfl | hc
  · decide
  · exact isPlain_of_mem_path c hc

namespace Reference

variable {catalog : Catalog} {s : String} {r : Reference}

/-- The text of a reference is a word, if the text it was read from is one. -/
theorem isWord_text (h : parse catalog s = .ok r) (hs : isWord s.toList) : isWord r.text.toList := by
  cases r with
  | plain p => exact isWord_of_plain isPlain_of_mem_path
  | qualified q =>
    obtain ⟨uri, hsource, hlookup⟩ := parse_eq_ok_qualified.mp h
    rw [hsource, isWord_append_path] at hs
    rw [toList_text_qualified, isWord_append_path]
    -- the schema may change its casing, so the word is carried over to it
    have hlower := (Catalog.lookup_text hlookup).1
    refine isWord_of_lower_eq hlower.symm ?_
    rwa [String.toList_ofList]

/-- The text of a reference is no keyword, if the text it was read from is none. -/
theorem isFree_text (h : parse catalog s = .ok r) (hs : isFree s.toList) : isFree r.text.toList := by
  cases r with
  | plain p =>
    rw [← parse_eq_ok_plain.mp h] at hs
    exact hs
  | qualified q =>
    rw [toList_text_qualified]
    exact isFree_of_mem (c := ':') (by simp) (by decide)

end Reference

/-- The path that a word names is written as a word that names it. -/
theorem Reads.attr {ctx : FilterContext} {scope : Option Reference} {word source : List Char}
    {attr : Reference} (h : ctx.Names scope word attr) (hspell : ctx.masked.Spells word source) :
    Reads (fun m tokens => ∃ word start, tokens = [.word word start] ∧
      FilterContext.Names ⟨m, ctx.catalog, ctx.operators⟩ scope word attr) attr.text.toList := by
  -- what the word names was read from its source, and its text is a word like that source
  have hparsed := h.parsed
  have hfree := (isFree_iff_of_spells hspell).mp h.free
  rw [Masked.unmaskText, Masked.unmask_of_spells hspell] at hparsed
  have hword : isWord attr.text.toList :=
    Reference.isWord_text hparsed (by rw [String.toList_ofList]; exact hspell.isWord)
  have hfree' : isFree attr.text.toList :=
    Reference.isFree_text hparsed (by rw [String.toList_ofList]; exact hfree)
  refine (Reads.word hword attr.toList_text_ne_nil).mono ?_
  rintro m _ ⟨word', start, rfl, hspell'⟩
  refine ⟨word', start, rfl, (isFree_iff_of_spells hspell').mpr hfree', ?_, h.plain⟩
  show Reference.parse ctx.catalog (m.unmaskText word') = .ok attr
  rw [Masked.unmaskText, Masked.unmask_of_spells hspell', String.ofList_toList]
  exact Reference.parse_text hparsed

/-! ## Operators -/

/-- The tokens of operators hold no character U+0000. -/
structure Operators.Unmasked (ops : Operators) : Prop where
  unary : ∀ op ∈ ops.unary, Masked.border ∉ op.token.toList
  binary : ∀ op ∈ ops.binary, Masked.border ∉ op.token.toList

/-- The operators of the protocol are made of letters. -/
theorem Operators.unmasked_standard : Operators.standard.Unmasked :=
  ⟨by decide +kernel, by decide +kernel⟩

/-- Nor do the keys that operators are found under, which are their tokens in lower case. -/
theorem Operators.Unmasked.border_not_mem {ops : Operators} (h : ops.Unmasked) {key : String}
    (hkey : key ∈ ops.keys) : Masked.border ∉ key.toList := by
  have hlower : ∀ token : String, Masked.border ∉ token.toList →
      Masked.border ∉ (Text.lower token).toList := fun token ht hm =>
    ht ((Text.mem_lower (by decide +kernel) token).mp hm)
  rcases List.mem_append.mp hkey with hmem | hmem
  · obtain ⟨op, hop, rfl⟩ := List.mem_map.mp hmem
    exact hlower op.token (h.unary op hop)
  · obtain ⟨op, hop, rfl⟩ := List.mem_map.mp hmem
    exact hlower op.token (h.binary op hop)

/-- A word without quotes stands for itself. -/
theorem Reads.plain {cs : List Char} (h : ∀ c ∈ cs, isPlain c = true) (hne : cs ≠ []) :
    Reads (fun _ tokens => ∃ start, tokens = [.word cs start]) cs := by
  refine (Reads.word (isWord_of_plain h) hne).mono ?_
  rintro m _ ⟨word, start, rfl, hspell⟩
  rcases hspell.eq_or_mem with rfl | ⟨-, hquote⟩
  · exact ⟨start, rfl⟩
  · exact absurd (h _ hquote) (by decide)

/-- The token of an operator in lower case is a word that stands for itself. -/
theorem Reads.operator {ops : Operators} (hops : ops.WellFormed) (hmask : ops.Unmasked)
    {key : String} (hkey : key ∈ ops.keys) :
    Reads (fun _ tokens => ∃ start, tokens = [.word key.toList start]) key.toList := by
  have hplain : ∀ c ∈ key.toList, isPlain c = true := by
    intro c hc
    have hborder : c ≠ Masked.border := by
      rintro rfl
      exact hmask.border_not_mem hkey hc
    simp [isPlain, hops.unbroken key hkey c hc, hborder]
  exact Reads.plain hplain (hops.nonempty key hkey)

/-! ## Operands -/

namespace Literal

variable {source : List Char} {lit : Literal}

/-- All that operands can be.  A decimal keeps its source, and is a number. -/
theorem IsRead.cases (h : IsRead source lit) :
    (∃ s, lit = .string s) ∨ (∃ b, lit = .boolean b) ∨ lit = .null ∨ (∃ i, lit = .integer i) ∨
      ∃ d, lit = .decimal d (String.ofList source) ∧ ofWord? source = some lit ∧
        d.isNaN = false := by
  rcases h with h | h
  · obtain ⟨s, -, rfl⟩ := Option.map_eq_some_iff.mp h
    exact .inl ⟨s, rfl⟩
  · have hword := h
    unfold ofWord? at h
    split at h
    · exact .inr (.inl ⟨_, (Option.some.inj h).symm⟩)
    · exact .inr (.inr (.inl (Option.some.inj h).symm))
    · -- a number without a point is an integer, if it fits 64 bits
      split at h
      · exact .inr (.inr (.inr (.inl ⟨_, (Option.some.inj h).symm⟩)))
      · exact .inr (.inr (.inr (.inr ⟨_, (Option.some.inj h).symm, hword, Decimal.isNaN_ofInt _⟩)))
    · rename_i d hd
      exact .inr (.inr (.inr (.inr
        ⟨d, (Option.some.inj h).symm, hword, Json.isNaN_of_scalar? hd⟩)))
    · exact absurd h (by simp)

/-- The decimal form of a 64-bit integer is read as the integer. -/
theorem ofWord?_integer (i : Int64) :
    ofWord? (Literal.integer i).text.toList = some (.integer i) := by
  have hlow : -0x8000000000000000 ≤ i.toInt := i.le_toInt
  have hhigh : i.toInt < 0x8000000000000000 := i.toInt_lt
  -- a coefficient may be twice as large as an integer
  have hmax : i.toInt ≤ (Json.Numeral.maxCoefficient : Int) := by
    show i.toInt ≤ ((0xFFFFFFFFFFFFFFFF : Nat) : Int)
    omega
  have hscalar : Json.scalar? (Literal.integer i).text.toList = some (.integer i.toInt) :=
    Json.scalar?_toString hlow hmax
  have hint : Value.ofInt? i.toInt = some i := by
    rw [Value.ofInt?, if_pos ⟨i.minValue_le_toInt, i.toInt_le⟩, Int64.ofInt_toInt]
  rw [ofWord?, hscalar]
  dsimp only
  rw [hint]

/-- The canonical form of an operand is read as the operand. -/
theorem IsRead.text (h : IsRead source lit) : IsRead lit.text.toList lit := by
  rcases h.cases with ⟨s, rfl⟩ | ⟨b, rfl⟩ | rfl | ⟨i, rfl⟩ | ⟨d, rfl, hword, -⟩
  · left
    show (Text.unquote (String.ofList (Text.quoteChars s.toList)).toList).map Literal.string = _
    rw [String.toList_ofList, Text.unquote_quoteChars, String.ofList_toList]
    rfl
  · right
    cases b with
    | false => decide +kernel
    | true => decide +kernel
  · right
    decide +kernel
  · exact .inr (ofWord?_integer i)
  · right
    show ofWord? (String.ofList source).toList = _
    rwa [String.toList_ofList]

/-- A constant or number is a word. -/
theorem isWord_of_ofWord? (h : ofWord? source = some lit) : isWord source := by
  -- a quote or bracket in it would not be numeric
  refine isWord_of_plain fun c hc => isPlain_of_isNumeric ?_
  cases hnum : Json.isNumeric c with
  | true => rfl
  | false => exact absurd hc (not_mem_of_ofWord? h hnum)

/-- Quotes around an escaped text are those of one literal. -/
theorem isWord_quoteChars (cs : List Char) : isWord (Text.quoteChars cs) := by
  have hclose := Text.closeQuote_escape cs []
  rw [isWord, Text.quoteChars, List.cons_append, List.foldl_cons,
    show WordState.step .outside '"' = .inside from rfl,
    foldl_inside hclose (Text.nul_not_mem_escape cs)]
  rfl

/-- The canonical form of an operand is a word. -/
theorem IsRead.isWord_text (h : IsRead source lit) : isWord lit.text.toList := by
  rcases h.text with htext | htext
  · obtain ⟨s, -, rfl⟩ := Option.map_eq_some_iff.mp htext
    show isWord (String.ofList (Text.quoteChars s.toList)).toList
    rw [String.toList_ofList]
    exact isWord_quoteChars s.toList
  · exact isWord_of_ofWord? htext

/-- No operand is read from nothing. -/
theorem IsRead.ne_nil (h : IsRead source lit) : source ≠ [] := by
  rintro rfl
  rcases h with h | h
  · exact absurd h (by simp [ofQuoted?, Text.unquote])
  · have hnone : Json.scalar? [] = none := by decide +kernel
    rw [ofWord?, hnone] at h
    exact absurd h (by simp)

/-- Each operand equals itself. -/
theorem IsRead.same_self (h : IsRead source lit) : lit.same lit = true := by
  rcases h.cases with ⟨s, rfl⟩ | ⟨b, rfl⟩ | rfl | ⟨i, rfl⟩ | ⟨d, rfl, -, hnum⟩
  · simp [same]
  · simp [same]
  · rfl
  · simp [same]
  · simp [same, Decimal.same_self hnum]

end Literal

/-- The canonical form of an operand is a word that is read as the operand. -/
theorem Reads.operand {source : List Char} {lit : Literal} (h : Literal.IsRead source lit) :
    Reads (fun m tokens => ∃ word start, tokens = [.word word start] ∧
      Literal.IsRead (m.unmask word) lit) lit.text.toList := by
  refine (Reads.word h.isWord_text h.text.ne_nil).mono ?_
  rintro m _ ⟨word, start, rfl, hspell⟩
  refine ⟨word, start, rfl, ?_⟩
  rw [Masked.unmask_of_spells hspell]
  exact h.text

end Scim
