import Scim.Patch.Path
import Scim.Proofs.Filter.RoundTrip
import Scim.Proofs.Patch.Matching
import Scim.Proofs.Patch.PlainPath

/-!
  # The text of a path is read as the path

  A path is read in one of two ways, and in both its text is read in the same way again.

    * Without a selection the path is a reference, and its text is one (`read_text_plain`).
    * With a selection the path begins with the text of a filter on elements.  The crux is
      `read_text_selecting`: the first square bracket and the one that closes it are those of the
      filter itself, for inside of it square brackets stand in literals only (`Derives.isRound`).
      So the reader of paths cuts the text where the reader of filters does.

  The text of a filter on elements is the text of a path with that filter, so it is read as that path.
-/

namespace Scim

/-! ## Filters on elements -/

namespace FilterContext

variable {ctx : FilterContext} {phrase : Phrase} {scope : Option Reference} {tokens : List Token}
  {attr : Reference} {f : Filter}

/-- A filter on elements derives from a word, and from a filter in square brackets. -/
theorem Derives.complex_cases (h : ctx.Derives phrase scope tokens (.complex attr f)) :
    ∃ word start i j inner,
      tokens = .word word start :: .opening '[' i :: (inner ++ [.closing ']' j]) ∧
      ctx.Names none word attr ∧ attr.isSub = false ∧
      ctx.Derives .disjunction (some attr) inner f := by
  -- on the derivation: chains of one term only pass it on
  generalize hg : Filter.complex attr f = g at h
  induction h with
  | conjunction _ ih => exact ih hg
  | term _ ih => exact ih hg
  | complex start i j hname hsub hin =>
    obtain ⟨rfl, rfl⟩ := Filter.complex.inj hg
    exact ⟨_, start, i, j, _, rfl, hname, hsub, hin⟩
  | _ => exact absurd hg (by simp)

/-- A token that is no square bracket. -/
def IsRound : Token → Prop
  | .opening c _ | .closing c _ => c = '(' ∨ c = ')'
  | .word .. => True

/-- In square brackets there are no others. -/
theorem Derives.isRound (h : ctx.Derives phrase scope tokens f) (hscope : scope.isSome = true) :
    ∀ t ∈ tokens, IsRound t := by
  induction h with
  | conjunction _ ih => exact ih hscope
  | term _ ih => exact ih hscope
  | or _ ht _ ihl ihr | and _ ht _ ihl ihr =>
    obtain ⟨word, start, rfl, -⟩ := exists_word_of_isKeyword ht
    simp only [List.forall_mem_append, List.forall_mem_cons]
    exact ⟨ihl hscope, trivial, ihr hscope⟩
  | not ht _ ih =>
    obtain ⟨word, start, rfl, -⟩ := exists_word_of_isKeyword ht
    exact List.forall_mem_cons.mpr ⟨trivial, ih hscope⟩
  | group i j _ ih =>
    simp only [List.forall_mem_append, List.forall_mem_cons]
    exact ⟨.inl rfl, ih hscope, .inr rfl, by simp⟩
  -- square brackets do not nest
  | complex => exact absurd hscope (by simp)
  | unary | binary => simp [IsRound]

/-- The text of an attribute that words name is a word. -/
theorem Names.isWord_text {word source : List Char} (h : ctx.Names scope word attr)
    (hspell : ctx.masked.Spells word source) :
    isWord attr.text.toList ∧ Reference.parse ctx.catalog attr.text = .ok attr := by
  have hparsed := h.parsed
  rw [Masked.unmaskText, Masked.unmask_of_spells hspell] at hparsed
  refine ⟨Reference.isWord_text hparsed ?_, Reference.parse_text hparsed⟩
  rw [String.toList_ofList]
  exact hspell.isWord

end FilterContext

/-- What reads as tokens without square brackets is masked to a text without them. -/
theorem Reads.not_mem_of_isRound {cs chars : List Char} {lits : List (List Char)} {n : Nat}
    (h : Reads (fun _ tokens => ∀ t ∈ tokens, FilterContext.IsRound t) cs)
    (hmask : Masked.maskFrom n cs = (chars, lits, none)) {m : Masked} (hm : m.Holds n lits) {c : Char}
    (hc : c = '[' ∨ c = ']') : c ∉ chars := by
  intro hmem
  obtain ⟨chars', lits', hmask', hread⟩ := h.2 n
  obtain ⟨rfl, rfl, -⟩ : chars = chars' ∧ lits = lits' ∧ True := by simpa [hmask] using hmask'
  obtain ⟨tokens, hround, htokens⟩ := hread m hm 0 [] (by simp [Ends])
  have hnil : ∀ pos, Token.readFrom pos [] [] = [] := fun pos => rfl
  rw [List.append_nil, hnil, List.append_nil] at htokens
  -- a bracket in the text would be read as a token
  have hbracket : Token.isOpening c = true ∨ Token.isClosing c = true := by
    rcases hc with rfl | rfl <;> decide
  obtain ⟨i, htoken⟩ := Token.exists_mem_readFrom hbracket hmem 0 []
  rw [htokens] at htoken
  have hc' : c = '(' ∨ c = ')' := htoken.elim (hround _) (hround _)
  rcases hc with rfl | rfl <;> exact absurd hc' (by decide)

namespace PatchPath

variable {catalog : Catalog} {operators : Operators}

/-! ## Putting together -/

/-- A path that is put together has the parts it was made of. -/
theorem make_eq_ok {attr : Reference} {filter : Option Filter} {sub : Option Name} {p : PatchPath}
    (h : make attr filter sub = .ok p) : p.attr = attr ∧ p.filter? = filter ∧ p.sub = sub := by
  -- the attribute must be one at the top, and the filter, if there is one, about it
  unfold make at h
  dsimp only at h
  split at h
  · simp at h
  · split at h
    · obtain rfl := Except.ok.inj h
      exact ⟨rfl, rfl, rfl⟩
    · split at h
      · simp at h
      · rename_i f s hs hselect
        obtain rfl := Except.ok.inj h
        refine ⟨rfl, ?_, rfl⟩
        unfold selection? at hselect
        split at hselect
        · split at hselect
          · cases hselect
            rfl
          · simp at hselect
        · simp at hselect

/-- A path can be made with a filter on the elements of its attribute. -/
theorem make_selecting {attr : Reference} (hsub : attr.isSub = false) (inner : Filter)
    (sub : Option Name) : ∃ p, make attr (some (.complex attr inner)) sub = .ok p := by
  have hselect : selection? attr (.complex attr inner) = some ⟨⟨attr, inner⟩, attr.same_self⟩ :=
    dif_pos attr.same_self
  unfold make
  dsimp only
  rw [dif_neg (by simp [hsub])]
  split
  · rename_i hnone
    rw [hselect] at hnone
    simp at hnone
  · exact ⟨_, rfl⟩

/-- The filter of a path is one on the elements of its attribute. -/
theorem filter?_complex (p : PatchPath) {f : Filter} (h : f ∈ p.filter?) :
    ∃ attr inner, f = .complex attr inner ∧ attr.same p.attr = true := by
  obtain ⟨s, hs, rfl⟩ := Option.map_eq_some_iff.mp h
  exact ⟨s.attr, s.inner, rfl, p.onAttr s hs⟩

/-! ## Reading -/

theorem mapError_eq_ok {α ε ε' : Type} {x : Except ε α} {f : ε → ε'} {y : α} :
    x.mapError f = .ok y ↔ x = .ok y := by
  cases x <;> simp [Except.mapError]

/-- The brackets match, the literals are closed, and then it depends on whether there is a square
    bracket. -/
theorem read_eq_ok {input : List Char} {p : PatchPath} :
    read catalog operators input = .ok p ↔ (Masked.mask input).2 = none ∧
      Token.unbalanced? [] (Masked.mask input).1.chars = none ∧
      ('[' ∉ (Masked.mask input).1.chars ∧ readPlain catalog input = .ok p ∨
        ∃ name bracketed, '[' ∉ name ∧ (Masked.mask input).1.chars = name ++ '[' :: bracketed ∧
          readSelecting catalog operators input (Masked.mask input).1 name ('[' :: bracketed) =
            .ok p) := by
  unfold read
  split
  rename_i m unclosed hmask
  rw [hmask]
  cases hbalanced : Token.unbalanced? [] m.chars with
  | some bracket => simp [Reading.fail]
  | none =>
    cases unclosed with
    | some literal => simp [Reading.fail]
    | none =>
      simp only [true_and]
      by_cases hmem : '[' ∈ m.chars
      · obtain ⟨name, bracketed, hchars, hname⟩ := List.eq_append_cons_of_mem hmem
        obtain ⟨htake, hdrop⟩ := cut_at_square hname bracketed
        rw [← hchars] at htake hdrop
        rw [htake, hdrop]
        constructor
        · exact fun h => .inr ⟨name, bracketed, hname, hchars, h⟩
        · rintro (⟨hnone, -⟩ | ⟨name', bracketed', hname', hchars', h⟩)
          · exact absurd hmem hnone
          · obtain ⟨htake', hdrop'⟩ := cut_at_square hname' bracketed'
            rw [← hchars', htake] at htake'
            rw [← hchars', hdrop] at hdrop'
            rw [htake', hdrop']
            exact h
      · have hdrop : m.chars.dropWhile (· != '[') = [] := by
          refine List.dropWhile_eq_nil_iff.mpr fun c hc => ?_
          rw [bne_iff_ne]
          rintro rfl
          exact hmem hc
        rw [hdrop]
        simp only [mapError_eq_ok]
        constructor
        · exact fun h => .inl ⟨hmem, h⟩
        · rintro (⟨-, h⟩ | ⟨name, bracketed, -, hchars, -⟩)
          · exact h
          · exact absurd (by simp [hchars]) hmem

/-- A path with a selection is read in its parts: up to the end of the selection, and what follows.
    -/
theorem readSelecting_eq_ok {input name bracketed : List Char} {m : Masked} {p : PatchPath} :
    readSelecting catalog operators input m name bracketed = .ok p ↔
      ∃ selection rest, splitClosed? 0 bracketed = some (selection, rest) ∧
        ∃ sub, readSub m rest = .ok sub ∧
          ∃ attr, Reference.parse catalog (m.unmaskText name) = .ok attr ∧
            ∃ filter, Filter.read catalog operators (m.unmask (name ++ selection)) = .ok filter ∧
              make attr (some filter) sub = .ok p := by
  unfold readSelecting
  cases splitClosed? 0 bracketed with
  | none => simp [Reading.fail]
  | some split =>
    obtain ⟨selection, rest⟩ := split
    simp [bind_eq_ok, mapError_eq_ok]

/-- A path without one is read as a reference, and cut into the attribute and the sub-attribute. -/
theorem readPlain_eq_ok {input : List Char} {p : PatchPath} :
    readPlain catalog input = .ok p ↔
      ∃ r, Reference.parse catalog (String.ofList input) = .ok r ∧
        make r.parent none r.sub = .ok p := by
  unfold readPlain
  cases Reference.parse catalog (String.ofList input) <;> simp [bind, Except.bind]

/-! ## Texts of paths without a selection -/

/-- Written as a path, the parts of a reference make up its text. -/
theorem textOf_parent (r : Reference) : textOf r.parent none r.sub = r.text := by
  cases r with
  | plain p =>
    obtain ⟨attr, _ | sub⟩ := p <;> rfl
  | qualified q =>
    obtain ⟨uri, attr, _ | sub⟩ := q
    · rfl
    · simp [textOf, Reference.parent, Reference.sub, Reference.path, Reference.text, Qualified.parent,
        Qualified.text, Path.parent, Path.text, String.append_assoc]

/-- The text of a path without a selection is read as the path. -/
theorem read_text_plain {input : List Char} {p : PatchPath} (hinput : isPlainPath input)
    (h : readPlain catalog input = .ok p) : read catalog operators p.text.toList = .ok p := by
  obtain ⟨r, hr, hmake⟩ := readPlain_eq_ok.mp h
  obtain ⟨hattr, hfilter, hsub⟩ := make_eq_ok hmake
  have htext : p.text = r.text := by rw [text, hattr, hfilter, hsub, textOf_parent]
  have hplain := Reference.isPlainPath_text hr (by rwa [String.toList_ofList])
  obtain ⟨hclosed, hbalanced, hsquare⟩ := (isPlainPath_iff_mask _).mp hplain
  rw [htext]
  refine read_eq_ok.mpr ⟨hclosed, hbalanced, .inl ⟨hsquare, readPlain_eq_ok.mpr ⟨r, ?_, hmake⟩⟩⟩
  rw [String.ofList_toList]
  exact Reference.parse_text hr

/-! ## Texts of paths with a selection -/

/-- What is written behind a selection. -/
def subChars : Option Name → List Char
  | none => []
  | some sub => '.' :: sub.text.toList

/-- With a filter, a path is written as the filter, with the sub-attribute behind it. -/
theorem toList_textOf (attr : Reference) (f : Filter) (sub : Option Name) :
    (textOf attr (some f) sub).toList = f.text.toList ++ subChars sub := by
  have hpoint : ".".toList = ['.'] := by decide +kernel
  cases sub <;> simp [textOf, subChars, String.toList_append, hpoint]

/-- What is written behind a selection are plain characters. -/
theorem isPlain_of_mem_subChars (sub : Option Name) : ∀ c ∈ subChars sub, isPlain c = true := by
  intro c hc
  cases sub with
  | none => exact absurd hc List.not_mem_nil
  | some sub =>
    rcases List.mem_cons.mp hc with rfl | hc
    · decide
    · exact isPlain_of_isNameChar (sub.isNameChar_of_mem c hc)

/-- What is written behind a selection is read there. -/
theorem readSub_subChars (m : Masked) (sub : Option Name) : readSub m (subChars sub) = .ok sub := by
  cases sub with
  | none => rfl
  | some sub =>
    have hborder : Masked.border ∉ sub.text.toList := sub.not_mem (by decide)
    have hname : Name.parse (m.unmaskText sub.text.toList) = .ok sub := by
      rw [Masked.unmaskText, Masked.unmask_of_not_mem hborder, String.ofList_toList]
      exact dif_pos sub.valid
    simp only [subChars, readSub, hname]
    rfl

/-- The first square bracket is closed by the next one, where there are no others between. -/
theorem splitClosed?_square {inner : List Char} (hopen : '[' ∉ inner) (hclose : ']' ∉ inner)
    (rest : List Char) :
    splitClosed? 0 ('[' :: (inner ++ ']' :: rest)) = some ('[' :: (inner ++ [']']), rest) := by
  have hinside : splitClosed? 1 (inner ++ ']' :: rest) = some (inner ++ [']'], rest) := by
    induction inner with
    | nil => rfl
    | cons c inner ih =>
      simp only [List.mem_cons, not_or] at hopen hclose
      rw [List.cons_append, splitClosed?]
      simp [Ne.symm hopen.1, Ne.symm hclose.1, ih hopen.2 hclose.2]
  rw [splitClosed?]
  simp [hinside]

/-- The text of a filter on elements is masked bracket for bracket: between the two square brackets
    of the filter there are no others. -/
theorem maskFrom_text_complex (hops : operators.WellFormed) (hmask : operators.Unmasked)
    {source : List Char} (hsource : Masked.border ∉ source) {attr : Reference} {inner : Filter}
    (h : Filter.read catalog operators source = .ok (.complex attr inner)) :
    attr.isSub = false ∧ Reference.parse catalog attr.text = .ok attr ∧
      ∃ name between lits,
        Masked.maskFrom 0 (Filter.complex attr inner).text.toList =
          (name ++ '[' :: (between ++ [']']), lits, none) ∧
        ∀ m : Masked, m.Holds 0 lits → m.unmask name = attr.text.toList ∧
          '[' ∉ name ∧ '[' ∉ between ∧ ']' ∉ between := by
  have hderives := ((Filter.read_eq_ok hops hsource).mp h).2
  have hsourced : (FilterContext.ofText catalog operators source).Sourced
      (Token.readAll (Masked.mask source).1) := Masked.spells_of_mem_readAll hsource
  obtain ⟨word, start, i, j, tokens, htokens, hname, hsub, hin⟩ := hderives.complex_cases
  rw [htokens] at hsourced
  obtain ⟨piece, hspell⟩ := hsourced word start List.mem_cons_self
  obtain ⟨hword, hparsed⟩ := hname.isWord_text hspell
  have hround := (hin.reads_text hops hmask (hsourced.mono fun t ht => by simp [ht])).mono
    fun m tokens hin => hin.isRound rfl
  -- the word is masked first, and then what is in the brackets
  obtain ⟨name, before, hmaskname, hspells⟩ := Masked.spells_of_isWord 0 _ hword
  obtain ⟨between, after, hmaskbetween, -⟩ := hround.2 (0 + before.length)
  refine ⟨hsub, hparsed, name, between, before ++ after, ?_, fun m hm => ?_⟩
  · rw [Filter.toList_text_complex, Masked.maskFrom_append 0 _ _ hmaskname,
      Masked.maskFrom_cons (by decide), Masked.maskFrom_append _ _ _ hmaskbetween,
      Masked.maskFrom_cons (by decide), Masked.maskFrom_nil]
    simp
  · obtain ⟨hbefore, hafter⟩ := Masked.holds_append.mp hm
    have hname := hspells m hbefore
    refine ⟨Masked.unmask_of_spells hname, fun hmem => ?_,
      hround.not_mem_of_isRound hmaskbetween hafter (.inl rfl),
      hround.not_mem_of_isRound hmaskbetween hafter (.inr rfl)⟩
    exact absurd (hname.isUnbroken _ hmem) (by decide)

/-- A path that begins with the text of a filter on elements is read as the path with that filter. -/
theorem read_text_selecting (hops : operators.WellFormed) (hmask : operators.Unmasked)
    {source : List Char} (hsource : Masked.border ∉ source) {attr : Reference} {inner : Filter}
    (h : Filter.read catalog operators source = .ok (.complex attr inner)) (sub : Option Name) :
    ∃ p, read catalog operators (textOf attr (some (.complex attr inner)) sub).toList = .ok p ∧
      p.attr = attr ∧ p.filter? = some (.complex attr inner) ∧ p.sub = sub := by
  obtain ⟨hisSub, hparsed, name, between, lits, htext, hparts⟩ :=
    maskFrom_text_complex hops hmask hsource h
  obtain ⟨hborder, hself, -⟩ := Filter.read_text hops hmask hsource h
  -- the sub-attribute holds neither literals nor brackets
  have htail : Masked.maskFrom (0 + lits.length) (subChars sub) = (subChars sub, [], none) :=
    Masked.maskFrom_of_not_mem
      (fun hquote => absurd (isPlain_of_mem_subChars sub _ hquote) (by decide)) _
  -- the whole text is masked as the filter, with the sub-attribute behind it
  have hwhole : Masked.mask (textOf attr (some (.complex attr inner)) sub).toList =
      (⟨name ++ '[' :: (between ++ ']' :: subChars sub), lits⟩, none) := by
    rw [toList_textOf, Masked.mask, Masked.maskFrom_append 0 _ _ htext, htail]
    simp
  have hm : Masked.Holds ⟨name ++ '[' :: (between ++ ']' :: subChars sub), lits⟩ 0 lits := by
    intro i lit hlit
    rwa [Nat.zero_add]
  obtain ⟨hunmask, hname, hopen, hclose⟩ := hparts _ hm
  -- the text of the filter was read, so its brackets match
  have hfilter : Token.unbalanced? [] (name ++ '[' :: (between ++ [']'])) = none := by
    have hread := ((Filter.read_eq_ok hops hborder).mp hself).2.balanced
    rw [← Token.unbalanced?_eq_none_iff, Masked.mask, htext] at hread
    exact hread
  have hbalanced :=
    calc Token.unbalanced? [] (name ++ '[' :: (between ++ ']' :: subChars sub))
        = Token.unbalanced? [] ((name ++ '[' :: (between ++ [']'])) ++ subChars sub) := by simp
      _ = Token.unbalanced? [] (name ++ '[' :: (between ++ [']'])) :=
        Token.unbalanced?_append_left (fun c hc => not_bracket_of_isUnbroken
          (Masked.isUnbroken_of_isPlain (isPlain_of_mem_subChars sub c hc))) []
      _ = none := hfilter
  obtain ⟨p, hmake⟩ := make_selecting hisSub inner sub
  refine ⟨p, read_eq_ok.mpr ?_, make_eq_ok hmake⟩
  rw [hwhole]
  refine ⟨rfl, hbalanced, .inr ⟨name, _, hname, rfl, ?_⟩⟩
  refine readSelecting_eq_ok.mpr ⟨_, _, splitClosed?_square hopen hclose _, sub,
    readSub_subChars _ sub, attr, ?_, _, ?_, hmake⟩
  · rw [Masked.unmaskText, hunmask, String.ofList_toList]
    exact hparsed
  · rw [Masked.unmask_maskFrom (mt Masked.mem_of_mem_unquoted hborder) htext hm]
    exact hself

/-! ## Texts are read back -/

/-- A text is parsed just if its characters are read. -/
theorem parse_eq_ok {s : String} {p : PatchPath} :
    parse catalog operators s = .ok p ↔ read catalog operators s.toList = .ok p :=
  mapError_eq_ok

theorem sameSub_self (sub : Option Name) : Path.sameSub sub sub = true := by
  cases sub <;> simp [Path.sameSub, Name.same]

/-- The text of a path that was parsed is parsed as an equal path. -/
theorem exists_parse_text (hops : operators.WellFormed) (hmask : operators.Unmasked) {s : String}
    (hs : Masked.border ∉ s.toList) {p : PatchPath} (h : parse catalog operators s = .ok p) :
    ∃ p', parse catalog operators p.text = .ok p' ∧ p'.same p = true ∧ p'.text = p.text := by
  obtain ⟨hclosed, hbalanced, ⟨hsquare, hplain⟩ | ⟨name, bracketed, -, -, hselecting⟩⟩ :=
    read_eq_ok.mp (parse_eq_ok.mp h)
  · -- the path is a reference
    have hinput := (isPlainPath_iff_mask s.toList).mpr ⟨hclosed, hbalanced, hsquare⟩
    obtain ⟨r, -, hmake⟩ := readPlain_eq_ok.mp hplain
    have hfilter := (make_eq_ok hmake).2.1
    refine ⟨p, parse_eq_ok.mpr (read_text_plain hinput hplain), ?_, rfl⟩
    simp [same, Reference.same_self, hfilter, sameFilter, sameSub_self]
  · -- the path begins with a filter, which was read from a piece of the text
    obtain ⟨selection, rest, -, sub, -, attr, -, filter, hread, hmake⟩ :=
      readSelecting_eq_ok.mp hselecting
    obtain ⟨hattr, hfilter, hsub⟩ := make_eq_ok hmake
    obtain ⟨target, inner, rfl, htarget⟩ := p.filter?_complex (f := filter) (by simp [hfilter])
    have hpiece := Masked.border_not_mem_unmask hs (name ++ selection)
    obtain ⟨p', hp', hattr', hfilter', hsub'⟩ := read_text_selecting hops hmask hpiece hread sub
    have htext : p.text = textOf target (some (.complex target inner)) sub := by
      rw [text, hfilter, hsub]
      rfl
    have hself := (Filter.read_text hops hmask hpiece hread).2.2
    refine ⟨p', parse_eq_ok.mpr (htext ▸ hp'), ?_, ?_⟩
    · simp [same, hattr', htarget, hfilter, hfilter', sameFilter, hself, hsub, hsub', sameSub_self]
    · rw [htext, text, hattr', hfilter', hsub']

/-- The text of a filter on elements is parsed as the path with that filter. -/
theorem exists_parse_text_filter (hops : operators.WellFormed) (hmask : operators.Unmasked)
    {s : String} (hs : Masked.border ∉ s.toList) {attr : Reference} {inner : Filter}
    (h : Filter.parse catalog operators s = .ok (.complex attr inner)) :
    ∃ p, parse catalog operators (Filter.complex attr inner).text = .ok p ∧
      p.filter? = some (.complex attr inner) ∧ p.attr = attr ∧ p.sub = none := by
  obtain ⟨p, hp, hattr, hfilter, hsub⟩ :=
    read_text_selecting hops hmask hs (Filter.parse_eq_ok.mp h) none
  exact ⟨p, parse_eq_ok.mpr hp, hfilter, hattr, hsub⟩

/-- Texts of paths are parsed back, and filters on elements are paths: a parsed path leads to an
    attribute with a filter on the elements of that attribute at most, its text is parsed as an equal
    path with the same text, and the text of a parsed filter on elements is a path with that filter
    and nothing else. -/
theorem texts_parsed_back (catalog : Catalog) {operators : Operators} (hops : operators.Built)
    (hmask : operators.Unmasked) {s : String} (hs : Masked.border ∉ s.toList) :
    (∀ p, parse catalog operators s = .ok p →
      p.attr.isSub = false ∧
      (∀ f ∈ p.filter?, ∃ attr inner, f = .complex attr inner ∧ attr.same p.attr = true) ∧
      ∃ p', parse catalog operators p.text = .ok p' ∧ p'.same p = true ∧ p'.text = p.text) ∧
    (∀ attr inner, Filter.parse catalog operators s = .ok (.complex attr inner) →
      ∃ p, parse catalog operators (Filter.complex attr inner).text = .ok p ∧
        p.filter? = some (.complex attr inner) ∧ p.attr = attr ∧ p.sub = none) :=
  ⟨fun p hp => ⟨p.isTop, fun _ hf => p.filter?_complex hf,
      exists_parse_text hops.wellFormed hmask hs hp⟩,
    fun _ _ hf => exists_parse_text_filter hops.wellFormed hmask hs hf⟩

/-- A catalog of one schema. -/
def mailCatalog : Catalog := ⟨[⟨"urn:Mail", false, by decide +kernel⟩]⟩

/-- A bracket in a literal, and a URI in another casing: the text is both a path and a filter. -/
theorem texts_parsed_back_emails :
    Operators.standard.Built ∧ Operators.standard.Unmasked ∧
      Masked.border ∉ "URN:mail:emails[type EQ \"a]b\"]".toList ∧
      (∃ p p', parse mailCatalog .standard "URN:mail:emails[type EQ \"a]b\"]" = .ok p ∧
        p.text = "urn:Mail:emails[type eq \"a]b\"]" ∧
        parse mailCatalog .standard p.text = .ok p' ∧ p'.same p = true ∧ p'.text = p.text) ∧
      ∃ attr inner p,
        Filter.parse mailCatalog .standard "URN:mail:emails[type EQ \"a]b\"]" =
          .ok (.complex attr inner) ∧
        parse mailCatalog .standard (Filter.complex attr inner).text = .ok p ∧
        p.filter? = some (.complex attr inner) := by
  have hs : Masked.border ∉ "URN:mail:emails[type EQ \"a]b\"]".toList := by decide +kernel
  obtain ⟨hpaths, hfilters⟩ := texts_parsed_back mailCatalog
    Operators.built_standard Operators.unmasked_standard hs
  refine ⟨Operators.built_standard, Operators.unmasked_standard, hs, ?_, ?_⟩
  · have htext : (parse mailCatalog .standard "URN:mail:emails[type EQ \"a]b\"]").toOption.map text =
        some "urn:Mail:emails[type eq \"a]b\"]" := by
      decide +kernel
    cases hp : parse mailCatalog .standard "URN:mail:emails[type EQ \"a]b\"]" with
    | error e => simp [hp, Except.toOption] at htext
    | ok p =>
      rw [hp] at htext
      obtain ⟨-, -, p', hp'⟩ := hpaths p hp
      exact ⟨p, p', rfl, Option.some.inj htext, hp'⟩
  · -- it is read as a filter in square brackets, as the path is
    have hsame : (Filter.parse mailCatalog .standard "URN:mail:emails[type EQ \"a]b\"]").toOption.any
        (fun f => f.same (.complex
          (.qualified ⟨⟨"urn:Mail", false, by decide +kernel⟩, ⟨⟨"emails", by decide +kernel⟩, none⟩⟩)
          (.leaf ⟨.plain ⟨⟨"type", by decide +kernel⟩, none⟩, .binary .equal (.string "a]b")⟩))) =
        true := by
      decide +kernel
    cases hf : Filter.parse mailCatalog .standard "URN:mail:emails[type EQ \"a]b\"]" with
    | error e => simp [hf, Except.toOption] at hsame
    | ok f =>
      cases f with
      | complex attr inner =>
        obtain ⟨p, hp, hfilter, -⟩ := hfilters attr inner hf
        exact ⟨attr, inner, p, rfl, hp, hfilter⟩
      | _ => simp [hf, Except.toOption, Filter.same] at hsame

end PatchPath

end Scim
