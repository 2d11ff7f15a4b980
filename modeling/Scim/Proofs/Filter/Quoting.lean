import Scim.Proofs.Filter.Hiding
import Scim.Proofs.Text.Trimming

/-!
  # Messages quote the text as it was written

  A message quotes the text of some tokens that stand next to each other.  It knows their places in the
  masked text only, where every literal has become a mask of another length.

    * A beginning of the text leads to a place of the masked text if it leaves no literal open and
      is masked to so many characters (`LeadsTo`).  There is at most one such beginning
      (`LeadsTo.unique`), so places of the masked text stand for places of the text.
    * What a run of tokens spans can be cut out of the masked text, and no mask is cut in two.  So it
      is the mask of a piece of the text, and that piece is quoted (`exists_quoted`), from the
      first character of the first token to the last character of the last one.
    * Around all tokens there are blanks only, and a text that is masked to blanks is those blanks.
      So all tokens quote the text without the blanks around it (`quote_readAll`).
-/

namespace Scim.Masked

open Token (Parted Spans)

variable {n : Nat} {cs chars input before source after a b : List Char} {lits : List (List Char)}

/-! ## Places of the masked text -/

/-- The masked text goes on at the place behind this beginning of the text. -/
def LeadsTo (before : List Char) (place : Nat) : Prop :=
  (mask before).2 = none ∧ (mask before).1.chars.length = place

/-- The mask of a text without an open literal, part by part. -/
theorem maskFrom_eq_mask (h : (mask cs).2 = none) :
    maskFrom 0 cs = ((mask cs).1.chars, (mask cs).1.literals, none) :=
  Prod.ext rfl (Prod.ext rfl h)

/-- Only the empty text is masked to nothing, for a mask is never empty. -/
theorem eq_nil_of_maskFrom (h : maskFrom n cs = ([], lits, none)) : cs = [] := by
  cases cs with
  | nil => rfl
  | cons c rest =>
    by_cases hc : c = '"'
    · subst hc
      cases hclose : Text.closeQuote rest with
      | none =>
        rw [maskFrom, if_pos rfl] at h
        split at h
        · simp at h
        · rename_i hsome
          rw [hclose] at hsome
          cases hsome
      | some body =>
        obtain ⟨body, after⟩ := body
        -- a literal becomes three characters at least
        rw [maskFrom_quoted hclose] at h
        simp [maskOf] at h
    · rw [maskFrom_cons hc] at h
      simp at h

/-- What lies between two beginnings that lead to one place is empty. -/
theorem LeadsTo.eq_nil {place : Nat} (ha : LeadsTo a place) (hab : LeadsTo (a ++ b) place) :
    b = [] := by
  obtain ⟨hclosed, hlength⟩ := ha
  obtain ⟨hclosed', hlength'⟩ := hab
  have happ := maskFrom_append 0 a b (maskFrom_eq_mask hclosed)
  rw [maskFrom_eq_mask hclosed', Prod.mk.injEq, Prod.mk.injEq] at happ
  obtain ⟨hchars, -, hnone⟩ := happ
  -- the second beginning is masked to no more characters than the first
  have hnil : (maskFrom (0 + (mask a).1.literals.length) b).1 = [] := by
    rw [hchars, List.length_append] at hlength'
    exact List.length_eq_zero_iff.mp (by omega)
  exact eq_nil_of_maskFrom (Prod.ext hnil (Prod.ext rfl hnone.symm))

/-- Only one beginning of a text leads to a place. -/
theorem LeadsTo.unique {a' b' : List Char} {place : Nat} (h : a ++ b = a' ++ b')
    (ha : LeadsTo a place) (ha' : LeadsTo a' place) : a = a' := by
  rcases List.append_eq_append_iff.mp h with ⟨d, rfl, -⟩ | ⟨d, rfl, -⟩
  · rw [ha.eq_nil ha', List.append_nil]
  · rw [ha'.eq_nil ha, List.append_nil]

/-- The place where a piece starts. -/
theorem Pieces.leadsTo (h : Pieces input before source after a b) : LeadsTo before a.length :=
  ⟨h.closed, by rw [h.chars_before]⟩

/-- The place where a piece stops. -/
theorem Pieces.leadsTo_append (h : Pieces input before source after a b) :
    LeadsTo (before ++ source) (a.length + b.length) := by
  obtain ⟨lits, hmask, -⟩ := h.masked
  have happ := maskFrom_append 0 before source (maskFrom_eq_mask h.closed)
  rw [Nat.zero_add, hmask, h.chars_before] at happ
  rw [LeadsTo, mask_eq happ, List.length_append]
  exact ⟨rfl, rfl⟩

/-- Characters that are parted are unmasked apart. -/
theorem Pieces.halves {b' : List Char} (h : Pieces input before source after a (b ++ b'))
    (hparted : Parted b b') : source = (mask input).1.unmask b ++ (mask input).1.unmask b' := by
  obtain ⟨lits, hmask, hholds⟩ := h.masked
  obtain ⟨x, y, lx, ly, rfl, hx, hy, rfl⟩ := maskFrom_split hparted hmask
  obtain ⟨hlx, hly⟩ := holds_append.mp hholds
  have hfree := h.free
  rw [unquoted_append hx, List.mem_append, not_or] at hfree
  rw [unmask_maskFrom hfree.1 hx hlx, unmask_maskFrom hfree.2 hy hly]

/-! ## Ends of a text -/

/-- A text begins as its mask, or with a quote. -/
theorem head?_of_maskFrom (h : maskFrom n cs = (chars, lits, none)) :
    ∀ c ∈ cs.head?, c = '"' ∨ c ∈ chars.head? := by
  intro c hc
  cases cs with
  | nil => cases hc
  | cons d rest =>
    obtain rfl : d = c := Option.some.inj hc
    by_cases hquote : d = '"'
    · exact .inl hquote
    · rw [maskFrom_cons hquote, Prod.mk.injEq] at h
      obtain ⟨rfl, -⟩ := h
      exact .inr rfl

/-- And it ends so. -/
theorem getLast?_of_maskFrom (h : maskFrom n cs = (chars, lits, none)) :
    ∀ c ∈ cs.getLast?, c = '"' ∨ c ∈ chars.getLast? := by
  fun_induction maskFrom n cs generalizing chars lits with
  | case1 => simp
  | case2 => simp at h
  | case3 n rest body after hclose _ chars' lits' unclosed heq ih =>
    simp only [Prod.mk.injEq] at h
    obtain ⟨rfl, rfl, rfl⟩ := h
    intro c hc
    have hquoted : '"' :: rest = '"' :: body ++ ['"'] ++ after := by
      rw [Text.eq_of_closeQuote hclose]
      simp
    rw [hquoted, List.getLast?_append] at hc
    -- behind the literal there is nothing, or something that ends as its own mask
    cases hlast : after.getLast? with
    | none =>
      rw [hlast, Option.none_or, List.getLast?_concat, Option.mem_some_iff] at hc
      exact .inl hc.symm
    | some d =>
      rw [hlast, Option.some_or, Option.mem_some_iff] at hc
      refine (ih heq c (hlast.trans (congrArg some hc))).imp_right fun hc' => ?_
      rw [List.getLast?_append, Option.mem_def.mp hc']
      rfl
  | case4 n d rest hd chars' lits' unclosed heq ih =>
    simp only [Prod.mk.injEq] at h
    obtain ⟨rfl, rfl, rfl⟩ := h
    intro c hc
    cases rest with
    | nil =>
      rw [maskFrom_nil, Prod.mk.injEq] at heq
      obtain ⟨rfl, -⟩ := heq
      exact .inr hc
    | cons e rest =>
      rw [List.getLast?_cons_cons] at hc
      refine (ih heq c hc).imp_right fun hc' => ?_
      rw [List.getLast?_cons, Option.mem_def.mp hc']
      rfl

/-- A text that is masked to blanks is those blanks. -/
theorem eq_of_maskFrom_blank (h : maskFrom n cs = (chars, lits, none))
    (hblank : ∀ c ∈ chars, Text.isBlank c = true) : cs = chars := by
  fun_induction maskFrom n cs generalizing chars lits with
  | case1 => exact congrArg Prod.fst h
  | case2 => simp at h
  | case3 n rest body after hclose _ chars' lits' unclosed heq ih =>
    simp only [Prod.mk.injEq] at h
    obtain ⟨rfl, -⟩ := h
    exact absurd (hblank border (by simp [maskOf])) (by decide)
  | case4 n c rest hc chars' lits' unclosed heq ih =>
    simp only [Prod.mk.injEq] at h
    obtain ⟨rfl, rfl, rfl⟩ := h
    rw [ih heq fun d hd => hblank d (List.mem_cons_of_mem c hd)]

/-! ## Quoting -/

/-- How tokens are quoted that stand next to each other, `first` to `last`: by the piece `source` of
    the input. -/
structure Quoted (input : List Char) (tokens : List Token) (first last : Token)
    (before source after : List Char) : Prop where
  text_eq : input = before ++ (source ++ after)
  /-- The piece starts where the first token does, -/
  start : LeadsTo before first.start
  /-- and stops where the last one does. -/
  stop : LeadsTo (before ++ source) last.stop
  begins : (mask input).1.unmask first.chars <+: source
  ends : (mask input).1.unmask last.chars <:+ source
  ne_nil : source ≠ []
  quote_eq : Token.quote (mask input).1 tokens = String.ofList source
  /-- Places in bytes cut no character in two, and so they quote the same. -/
  sliceBytes : ∃ cs, Token.sliceBytes? (mask input).1.chars
    (first.inBytes (mask input).1.chars).start
    (last.inBytes (mask input).1.chars).stopBytes = some cs
  quoteBytes_eq : Token.quoteBytes (mask input).1 (tokens.map (Token.inBytes (mask input).1.chars)) =
    Token.quote (mask input).1 tokens

/-- There is only one such piece. -/
theorem Quoted.unique {tokens : List Token} {first last : Token} {before' source' after' : List Char}
    (h : Quoted input tokens first last before source after)
    (h' : Quoted input tokens first last before' source' after') :
    before' = before ∧ source' = source ∧ after' = after := by
  have htext := h'.text_eq.symm.trans h.text_eq
  obtain rfl := LeadsTo.unique htext h'.start h.start
  have hstop : (before' ++ source') ++ after' = (before' ++ source) ++ after := by simpa using htext
  have hsource := LeadsTo.unique hstop h'.stop h.stop
  rw [hsource] at hstop
  exact ⟨rfl, List.append_cancel_left hsource, List.append_cancel_left hstop⟩

/-- The characters that tokens span are what is quoted. -/
theorem quote_of_spans {m : Masked} {front span rest : List Char} {tokens : List Token}
    {first last : Token} (hfirst : tokens.head? = some first) (hlast : tokens.getLast? = some last)
    (hchars : m.chars = front ++ (span ++ rest)) (h : Spans front span rest first last) :
    Token.quote m tokens = m.unmaskText span := by
  rw [Token.quote, hfirst, hlast]
  dsimp only
  rw [hchars, h.take_drop_eq]

/-- In bytes, too. -/
theorem quoteBytes_of_spans {m : Masked} {front span rest : List Char} {tokens : List Token}
    {first last : Token} (hfirst : tokens.head? = some first) (hlast : tokens.getLast? = some last)
    (hchars : m.chars = front ++ (span ++ rest)) (h : Spans front span rest first last) :
    Token.quoteBytes m (tokens.map (Token.inBytes m.chars)) = m.unmaskText span := by
  rw [Token.quoteBytes, List.head?_map, List.getLast?_map, hfirst, hlast]
  dsimp only [Option.map_some]
  rw [hchars, h.sliceBytes?_eq]
  rfl

/-- A span of tokens is the mask of a piece of the text, and that piece is quoted. -/
theorem quoted_of_spans {front span rest : List Char} {tokens : List Token} {first last : Token}
    (hfirst : tokens.head? = some first) (hlast : tokens.getLast? = some last)
    (hclosed : (mask input).2 = none) (hborder : border ∉ unquoted input)
    (hchars : (mask input).1.chars = front ++ (span ++ rest)) (h : Spans front span rest first last) :
    ∃ before source after, Quoted input tokens first last before source after ∧
      Pieces input before source after front span ∧ ∃ n lits, maskFrom n after = (rest, lits, none) := by
  obtain ⟨before, source, after, hpieces, hafter⟩ :=
    exists_pieces hclosed hborder hchars h.before h.behind
  refine ⟨before, source, after, ?_, hpieces, hafter⟩
  obtain ⟨hsolid, more, hbegins, hmore⟩ := h.begins
  obtain ⟨-, less, hends, hless⟩ := h.ends
  have hquote := quote_of_spans hfirst hlast hchars h
  have hbytes := quoteBytes_of_spans hfirst hlast hchars h
  refine ⟨hpieces.text_eq, ?_, ?_, ?_, ?_, ?_, ?_, ?_, hbytes.trans hquote.symm⟩
  · rw [h.start]
    exact hpieces.leadsTo
  · rw [h.stop]
    exact hpieces.leadsTo_append
  · rw [hbegins] at hpieces
    exact ⟨_, (hpieces.halves hmore).symm⟩
  · rw [hends] at hpieces
    exact ⟨_, (hpieces.halves hless).symm⟩
  · -- a piece is not empty, for its first token is not
    rintro rfl
    obtain ⟨lits, hmask, -⟩ := hpieces.masked
    rw [maskFrom_nil, hbegins, Prod.mk.injEq] at hmask
    exact hsolid.1 (List.append_eq_nil_iff.mp hmask.1.symm).1
  · rw [hquote, unmaskText, hpieces.unmasked]
  · rw [hchars]
    exact ⟨span, h.sliceBytes?_eq⟩

/-- Tokens next to each other quote the text from the first of them to the last. -/
theorem exists_quoted (hclosed : (mask input).2 = none) (hborder : border ∉ unquoted input)
    {tokens : List Token} (hrun : tokens <:+: Token.readAll (mask input).1) {first last : Token}
    (hfirst : tokens.head? = some first) (hlast : tokens.getLast? = some last) :
    ∃ before source after, Quoted input tokens first last before source after := by
  obtain ⟨earlier, later, hall⟩ := hrun
  obtain ⟨more, rfl⟩ : ∃ more, tokens = first :: more := by
    cases tokens with
    | nil => cases hfirst
    | cons t more => exact ⟨more, by rw [Option.some.inj hfirst]⟩
  have hlays := Token.lays_readAll (mask input).1
  rw [← hall, List.append_assoc] at hlays
  -- the tokens before the run are skipped with the blanks between them
  obtain ⟨skipped, rest, hchars, hrest⟩ := hlays.drop
  obtain ⟨blanks, span, rest, rfl, -, hspan, -⟩ := hrest.spans hlast
  rw [← List.append_assoc] at hchars
  obtain ⟨before, source, after, hquoted, -⟩ :=
    quoted_of_spans hfirst hlast hclosed hborder hchars hspan
  exact ⟨before, source, after, hquoted⟩

/-- All tokens quote the text without the blanks around it. -/
theorem quote_readAll (hclosed : (mask input).2 = none) (hborder : border ∉ unquoted input) :
    Token.quote (mask input).1 (Token.readAll (mask input).1) = Text.trim (String.ofList input) := by
  have hlays := Token.lays_readAll (mask input).1
  rw [Text.trim, String.toList_ofList]
  cases htokens : Token.readAll (mask input).1 with
  | nil =>
    rw [htokens] at hlays
    have hblank := hlays.isBlank
    rw [← eq_of_maskFrom_blank (maskFrom_eq_mask hclosed) hblank] at hblank
    have htrim : Text.Trims input [] := ⟨input, [], by simp, hblank, by simp, by simp, by simp⟩
    rw [Text.trimBlanks_eq_iff.mpr htrim]
    rfl
  | cons first more =>
    obtain ⟨last, hlast⟩ : ∃ last, (first :: more).getLast? = some last :=
      ⟨_, List.getLast?_eq_some_getLast (List.cons_ne_nil first more)⟩
    rw [htokens, ← List.append_nil (first :: more)] at hlays
    obtain ⟨blanks, span, rest, hchars, hblanks, hspan, hrest⟩ := hlays.spans hlast
    rw [List.nil_append] at hspan
    obtain ⟨before, source, after, hquoted, hpieces, n, lits, hafter⟩ :=
      quoted_of_spans rfl hlast hclosed hborder hchars hspan
    obtain ⟨lits, hmask, -⟩ := hpieces.masked
    -- around the tokens are blanks, and tokens themselves have none
    have hbefore : before = blanks := by
      have hmaskBefore := maskFrom_eq_mask hpieces.closed
      rw [hpieces.chars_before] at hmaskBefore
      exact eq_of_maskFrom_blank hmaskBefore hblanks
    have hafterBlank : after = rest := eq_of_maskFrom_blank hafter hrest.isBlank
    have hquote : Text.isBlank '"' = false := by decide
    rw [hquoted.quote_eq]
    refine congrArg String.ofList (Text.trimBlanks_eq_iff.mpr ?_).symm
    refine ⟨before, after, hquoted.text_eq, hbefore ▸ hblanks, hafterBlank ▸ hrest.isBlank, ?_, ?_⟩
    · intro c hc
      obtain ⟨⟨hne, hsolid⟩, rest, rfl, -⟩ := hspan.begins
      rcases head?_of_maskFrom hmask c hc with rfl | hc
      · exact hquote
      · rw [List.head?_append_of_ne_nil _ hne] at hc
        exact hsolid c (List.mem_of_head? hc)
    · intro c hc
      obtain ⟨⟨hne, hsolid⟩, rest, rfl, -⟩ := hspan.ends
      rcases getLast?_of_maskFrom hmask c hc with rfl | hc
      · exact hquote
      · rw [List.getLast?_append_of_ne_nil _ hne] at hc
        exact hsolid c (List.mem_of_getLast? hc)

/-- A text without U+0000 outside of its literals, all of which are closed, is quoted as it was
    written: by tokens next to each other from the first of them to the last, and by all of them but
    for the blanks around it.  Places in bytes are those of the same tokens. -/
theorem quoted_as_written (hclosed : (mask input).2 = none) (hborder : border ∉ unquoted input) :
    (∀ tokens first last, tokens <:+: Token.readAll (mask input).1 → tokens.head? = some first →
      tokens.getLast? = some last →
      ∃ before source after, Quoted input tokens first last before source after ∧
        ∀ before' source' after', Quoted input tokens first last before' source' after' →
          before' = before ∧ source' = source ∧ after' = after) ∧
      Token.quote (mask input).1 (Token.readAll (mask input).1) = Text.trim (String.ofList input) ∧
      Token.readAllBytes (mask input).1 =
        (Token.readAll (mask input).1).map (Token.inBytes (mask input).1.chars) := by
  refine ⟨fun tokens first last hrun hfirst hlast => ?_, quote_readAll hclosed hborder,
    Token.readAllBytes_eq _⟩
  obtain ⟨before, source, after, hquoted⟩ := exists_quoted hclosed hborder hrun hfirst hlast
  exact ⟨before, source, after, hquoted, fun _ _ _ hother => hquoted.unique hother⟩

/-- A literal with a bracket, a blank and U+0000, and characters of several bytes. -/
def accented : List Char := " naïve eq  \"é) \u0000\" and ç pr ".toList

/-- The first comparison is quoted with its literal and with the blanks between its tokens. -/
theorem quoted_as_written_accented :
    (mask accented).2 = none ∧ border ∉ unquoted accented ∧
      (∃ before after, Quoted accented ((Token.readAll (mask accented).1).take 3)
        (.word "naïve".toList 1) (.word (maskOf 0) 11) before "naïve eq  \"é) \u0000\"".toList after) ∧
      Token.quote (mask accented).1 (Token.readAll (mask accented).1) =
        "naïve eq  \"é) \u0000\" and ç pr" := by
  have hclosed : (mask accented).2 = none := by decide +kernel
  have hborder : border ∉ unquoted accented := by decide +kernel
  obtain ⟨hruns, hall, -⟩ := quoted_as_written hclosed hborder
  have hrun : (Token.readAll (mask accented).1).take 3 <:+: Token.readAll (mask accented).1 :=
    (List.take_prefix 3 _).isInfix
  have hfirst : ((Token.readAll (mask accented).1).take 3).head? = some (.word "naïve".toList 1) := by
    decide +kernel
  have hlast : ((Token.readAll (mask accented).1).take 3).getLast? = some (.word (maskOf 0) 11) := by
    decide +kernel
  have htrim : Text.trim (String.ofList accented) = "naïve eq  \"é) \u0000\" and ç pr" := by
    decide +kernel
  have hquote : Token.quote (mask accented).1 ((Token.readAll (mask accented).1).take 3) =
      String.ofList "naïve eq  \"é) \u0000\"".toList := by
    decide +kernel
  obtain ⟨before, source, after, hquoted, -⟩ := hruns _ _ _ hrun hfirst hlast
  have hsource : source = "naïve eq  \"é) \u0000\"".toList :=
    String.ofList_injective (hquoted.quote_eq.symm.trans hquote)
  exact ⟨hclosed, hborder, ⟨before, after, hsource ▸ hquoted⟩, hall.trans htrim⟩

end Scim.Masked
