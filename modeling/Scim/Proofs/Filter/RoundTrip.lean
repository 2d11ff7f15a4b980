import Scim.Proofs.Filter.Canonical
import Scim.Proofs.Filter.Reading

/-!
  # Filters are read back from their texts

  The text of a filter holds no more brackets than there are groups in the tree, so it is read as the
  same tree only because the tree was read in the first place.  What the reader produces is what
  derives from the grammar, and both halves meet there: by induction on a derivation of `f`, the text
  of `f` reads as tokens that derive `f` again (`reads_text`), wherever it stands in a longer text
  and whatever literals stand before it.
-/

namespace Scim

namespace Filter

/-- The texts of both sides, with the keyword between them. -/
theorem toList_text_and (f g : Filter) : (Filter.and f g).text.toList =
    f.text.toList ++ ' ' :: (['a', 'n', 'd'] ++ ' ' :: g.text.toList) := by
  have h : " and ".toList = [' ', 'a', 'n', 'd', ' '] := by decide +kernel
  simp [text, String.toList_append, h]

theorem toList_text_or (f g : Filter) : (Filter.or f g).text.toList =
    f.text.toList ++ ' ' :: (['o', 'r'] ++ ' ' :: g.text.toList) := by
  have h : " or ".toList = [' ', 'o', 'r', ' '] := by decide +kernel
  simp [text, String.toList_append, h]

theorem toList_text_not (f : Filter) :
    (Filter.not f).text.toList = ['n', 'o', 't'] ++ ' ' :: f.text.toList := by
  have h : "not ".toList = ['n', 'o', 't', ' '] := by decide +kernel
  simp [text, String.toList_append, h]

/-- The text inside, in round brackets. -/
theorem toList_text_group (f : Filter) :
    (Filter.group f).text.toList = '(' :: (f.text.toList ++ [')']) := by
  have ho : "(".toList = ['('] := by decide +kernel
  have hc : ")".toList = [')'] := by decide +kernel
  simp [text, String.toList_append, ho, hc]

/-- The path, and the text inside in square brackets. -/
theorem toList_text_complex (attr : Reference) (f : Filter) :
    (Filter.complex attr f).text.toList =
      attr.text.toList ++ '[' :: (f.text.toList ++ [']']) := by
  have ho : "[".toList = ['['] := by decide +kernel
  have hc : "]".toList = [']'] := by decide +kernel
  simp [text, String.toList_append, ho, hc]

/-- The path and the operator in lower case. -/
theorem toList_text_unary (attr : Reference) (op : UnaryOperator) :
    (Filter.leaf ⟨attr, .unary op⟩).text.toList =
      attr.text.toList ++ ' ' :: op.key.toList := by
  have h : " ".toList = [' '] := by decide +kernel
  simp [text, AttributeFilter.text, Comparison.operand?, Comparison.token, String.toList_append, h]

/-- The path, the operator in lower case and the operand in its canonical form. -/
theorem toList_text_binary (attr : Reference) (op : BinaryOperator) (lit : Literal) :
    (Filter.leaf ⟨attr, .binary op lit⟩).text.toList =
      attr.text.toList ++ ' ' :: (op.key.toList ++ ' ' :: lit.text.toList) := by
  have h : " ".toList = [' '] := by decide +kernel
  simp [text, AttributeFilter.text, Comparison.operand?, Comparison.token, String.toList_append, h]

end Filter

namespace Reads

variable {P Q : TokenProp} {a b : List Char}

/-- Two texts with a blank between them. -/
theorem append_blank (ha : Reads P a) (hb : Reads Q b) :
    Reads (fun m tokens => ∃ left right, tokens = left ++ right ∧ P m left ∧ Q m right)
      (a ++ ' ' :: b) :=
  ha.append (by decide) (by decide) hb.blank

/-- Two texts with a keyword between them. -/
theorem join {keyword : List Char} (hk : ∀ c ∈ keyword, isPlain c = true) (hne : keyword ≠ [])
    (ha : Reads P a) (hb : Reads Q b) :
    Reads (fun m tokens => ∃ left start right, tokens = left ++ .word keyword start :: right ∧
      P m left ∧ Q m right) (a ++ ' ' :: (keyword ++ ' ' :: b)) := by
  refine (ha.append_blank ((Reads.plain hk hne).append_blank hb)).mono ?_
  rintro m _ ⟨left, _, rfl, hP, _, right, rfl, ⟨start, rfl⟩, hQ⟩
  exact ⟨left, start, right, rfl, hP, hQ⟩

end Reads

namespace FilterContext

variable {ctx : FilterContext} {phrase : Phrase} {scope : Option Reference} {tokens : List Token}
  {f : Filter}

theorem isKeyword_self (keyword : List Char) (start : Nat) :
    Token.isKeyword keyword (.word keyword start) = true :=
  beq_self_eq_true _

/-- The context with other literals. -/
def withMasked (ctx : FilterContext) (m : Masked) : FilterContext := { ctx with masked := m }

/-- The tokens of the text of a filter derive the filter, if any tokens do. -/
theorem Derives.reads_text (hops : ctx.operators.WellFormed) (hmask : ctx.operators.Unmasked)
    (h : ctx.Derives phrase scope tokens f) (hs : ctx.Sourced tokens) :
    Reads (fun m tokens => (ctx.withMasked m).Derives phrase scope tokens f) f.text.toList := by
  induction h with
  | conjunction _ ih => exact (ih hs).mono fun _ _ => .conjunction
  | term _ ih => exact (ih hs).mono fun _ _ => .term
  -- both sides read by induction, and the keyword is written between them in lower case
  | @or _ left right t f g _ _ _ ihl ihr =>
    have hl := ihl (hs.mono fun t ht => List.mem_append_left _ ht)
    have hr := ihr (hs.mono fun t ht => List.mem_append_right _ (List.mem_cons_of_mem _ ht))
    rw [Filter.toList_text_or]
    refine (Reads.join (List.all_eq_true.mp (by decide)) (by decide) hl hr).mono ?_
    rintro m _ ⟨left, start, right, rfl, hl, hr⟩
    exact .or hl (isKeyword_self _ start) hr
  | @and _ left right t f g _ _ _ ihl ihr =>
    have hl := ihl (hs.mono fun t ht => List.mem_append_left _ ht)
    have hr := ihr (hs.mono fun t ht => List.mem_append_right _ (List.mem_cons_of_mem _ ht))
    rw [Filter.toList_text_and]
    refine (Reads.join (List.all_eq_true.mp (by decide)) (by decide) hl hr).mono ?_
    rintro m _ ⟨left, start, right, rfl, hl, hr⟩
    exact .and hl (isKeyword_self _ start) hr
  | @not _ tokens t f _ _ ih =>
    have hr := ih (hs.mono fun t ht => List.mem_cons_of_mem _ ht)
    have hnot : Reads (fun _ tokens => ∃ start, tokens = [.word ['n', 'o', 't'] start])
        ['n', 'o', 't'] := Reads.plain (List.all_eq_true.mp (by decide)) (by decide)
    rw [Filter.toList_text_not]
    refine (hnot.append_blank hr).mono ?_
    rintro m _ ⟨_, right, rfl, ⟨start, rfl⟩, hr⟩
    exact .not (isKeyword_self _ start) hr
  | @group _ tokens f i j _ ih =>
    have hin := ih (hs.mono fun t ht => by simp [ht])
    rw [Filter.toList_text_group]
    refine (Reads.bracket .round hin).mono ?_
    rintro m _ ⟨i, inner, j, rfl, hin⟩
    exact .group i j hin
  -- the path may be written in another casing, but it names the same attribute
  | @complex tokens word attr f start i j hname hsub _ ih =>
    have hin := ih (hs.mono fun t ht => by simp [ht])
    obtain ⟨source, hspell⟩ := hs word start List.mem_cons_self
    rw [Filter.toList_text_complex]
    refine ((Reads.attr hname hspell).append (by decide) (by decide)
      (Reads.bracket .square hin)).mono ?_
    rintro m _ ⟨_, _, rfl, ⟨word, start, rfl, hname⟩, i, inner, j, rfl, hin⟩
    exact .complex start i j hname hsub hin
  | @unary _ path word attr op i j hname hmem hkey =>
    obtain ⟨source, hspell⟩ := hs path i List.mem_cons_self
    have hop : op.key ∈ ctx.operators.keys := List.mem_append_left _ (List.mem_map_of_mem hmem)
    rw [Filter.toList_text_unary]
    refine ((Reads.attr hname hspell).append_blank (Reads.operator hops hmask hop)).mono ?_
    rintro m _ ⟨_, _, rfl, ⟨word, start, rfl, hname⟩, j, rfl⟩
    refine .unary start j hname hmem ?_
    rw [String.ofList_toList, UnaryOperator.key, Text.lower_lower]
  -- three words, each of them with its own canonical form
  | @binary _ path word operand attr op lit i j k hname hmem hkey hlit hsupports =>
    obtain ⟨source, hspell⟩ := hs path i List.mem_cons_self
    have hop : op.key ∈ ctx.operators.keys := List.mem_append_right _ (List.mem_map_of_mem hmem)
    rw [Filter.toList_text_binary]
    refine ((Reads.attr hname hspell).append_blank
      ((Reads.operator hops hmask hop).append_blank (Reads.operand hlit))).mono ?_
    rintro m _ ⟨_, _, rfl, ⟨word, start, rfl, hname⟩, _, _, rfl, ⟨j, rfl⟩, operand, k, rfl, hlit⟩
    refine .binary start j k hname hmem ?_ hlit hsupports
    rw [String.ofList_toList, BinaryOperator.key, Text.lower_lower]

/-- What derives from the grammar equals itself: its decimals are numbers. -/
theorem Derives.same_self (h : ctx.Derives phrase scope tokens f) : f.same f = true := by
  induction h with
  | conjunction _ ih => exact ih
  | term _ ih => exact ih
  | or _ _ _ ihl ihr => simp [Filter.same, ihl, ihr]
  | and _ _ _ ihl ihr => simp [Filter.same, ihl, ihr]
  | not _ _ ih => exact ih
  | group _ _ _ ih => exact ih
  | complex _ _ _ _ _ _ ih => simp [Filter.same, Reference.same_self, ih]
  | unary =>
    simp [Filter.same, AttributeFilter.same, Comparison.same, Comparison.sameOperand,
      Comparison.operand?, Reference.same_self]
  | binary _ _ _ _ _ _ hlit =>
    have hsame := Literal.IsRead.same_self hlit
    simp [Filter.same, AttributeFilter.same, Comparison.same, Comparison.sameOperand,
      Comparison.operand?, Reference.same_self, hsame]

end FilterContext

/-- A filter that was read is read from its own text again. -/
theorem Filter.read_text {catalog : Catalog} {operators : Operators} (hops : operators.WellFormed)
    (hmask : operators.Unmasked) {source : List Char} (hsource : Masked.border ∉ source) {f : Filter}
    (h : Filter.read catalog operators source = .ok f) :
    Masked.border ∉ f.text.toList ∧ Filter.read catalog operators f.text.toList = .ok f ∧
      f.same f = true := by
  have hderives := ((Filter.read_eq_ok hops hsource).mp h).2
  have hreads := hderives.reads_text hops hmask (Masked.spells_of_mem_readAll hsource)
  exact ⟨hreads.1, (Filter.read_eq_ok hops hreads.1).mpr hreads.mask, hderives.same_self⟩

/-- A filter that was parsed is parsed from its own text as the same filter, and so is written as
    that text again. -/
theorem Filter.parse_text_of_parse (catalog : Catalog) {operators : Operators} (hops : operators.Built)
    (hmask : operators.Unmasked) {s : String} (hs : Masked.border ∉ s.toList) {f : Filter}
    (h : Filter.parse catalog operators s = .ok f) :
    ∃ g, Filter.parse catalog operators f.text = .ok g ∧ g = f ∧ g.same f = true ∧
      g.text = f.text := by
  rw [Filter.parse_eq_ok, Filter.read_eq_ok hops.wellFormed hs] at h
  have hsource : (FilterContext.ofText catalog operators s.toList).Sourced
      (Token.readAll (Masked.mask s.toList).1) := Masked.spells_of_mem_readAll hs
  -- the text reads as tokens that derive the filter, and these are read
  have hreads := h.2.reads_text hops.wellFormed hmask hsource
  refine ⟨f, ?_, rfl, h.2.same_self, rfl⟩
  rw [Filter.parse_eq_ok, Filter.read_eq_ok hops.wellFormed hreads.1]
  exact hreads.mask

/-- A qualified path, keywords and operators in odd casings, an escaped string and a decimal. -/
theorem Filter.parse_text_of_parse_members :
    Operators.standard.Built ∧ Operators.standard.Unmasked ∧
      Masked.border ∉ "URN:s:name PR aNd Not(b Eq \"\\u0041/\" OR c gt 1.50)".toList ∧
      ∃ f g : Filter,
        Filter.parse ⟨[⟨"urn:S", false, by decide +kernel⟩]⟩ .standard
          "URN:s:name PR aNd Not(b Eq \"\\u0041/\" OR c gt 1.50)" = .ok f ∧
        f.text = "urn:S:name pr and not (b eq \"A/\" or c gt 1.50)" ∧
        Filter.parse ⟨[⟨"urn:S", false, by decide +kernel⟩]⟩ .standard f.text = .ok g ∧ g = f ∧
        g.same f = true ∧ g.text = f.text := by
  have hs : Masked.border ∉ "URN:s:name PR aNd Not(b Eq \"\\u0041/\" OR c gt 1.50)".toList := by
    decide +kernel
  refine ⟨Operators.built_standard, Operators.unmasked_standard, hs, ?_⟩
  have htext : (Filter.parse ⟨[⟨"urn:S", false, by decide +kernel⟩]⟩ .standard
      "URN:s:name PR aNd Not(b Eq \"\\u0041/\" OR c gt 1.50)").toOption.map Filter.text =
        some "urn:S:name pr and not (b eq \"A/\" or c gt 1.50)" := by
    decide +kernel
  cases hf : Filter.parse ⟨[⟨"urn:S", false, by decide +kernel⟩]⟩ .standard
      "URN:s:name PR aNd Not(b Eq \"\\u0041/\" OR c gt 1.50)" with
  | error e =>
    rw [hf] at htext
    exact absurd htext (by simp [Except.toOption])
  | ok f =>
    rw [hf] at htext
    obtain ⟨g, hg⟩ := Filter.parse_text_of_parse ⟨[⟨"urn:S", false, by decide +kernel⟩]⟩
      Operators.built_standard Operators.unmasked_standard hs hf
    exact ⟨f, g, rfl, Option.some.inj htext, hg⟩

end Scim
