import Scim.Text.Blank
import Scim.Text.Casing

/-!
  # What lower-casing leaves alone

  Two texts with one lower-case form may differ in length, so they can not be compared character by
  character.  But the characters that give a text its structure, such as brackets, quotes, colons
  and blanks, are `caseless`: lower-casing neither changes nor makes them.

    * `lowerChar_spec` is read off the table once, and everything below follows from it;
    * the lower-case form of a text is its own lower-case form (`lower_lower`);
    * a caseless character stands in a text if and only if it stands in its lower-case form
      (`mem_lowerFrom`);
    * an automaton that does not tell other characters apart can not tell a text from its
      lower-case form (`foldl_lowerFrom`).
-/

namespace Scim.Text

/-- A character with which no other one shares a lower-case form: those of ASCII that are no
    letters, and blanks. -/
def caseless (c : Char) : Bool := (c.toNat < 128 && !c.isAlpha) || isBlank c

/-- A character that may stand in a lower-case form in the place of another one. -/
structure Settled (d : Char) : Prop where
  cased : caseless d = false
  fixed : lowerChar d = [d]
  ne_sigma : d ≠ 'Σ'

/-! ## Reading the table -/

/-- The ranges in which the blanks beyond ASCII lie. -/
def blankRanges : List (Nat × Nat) :=
  [(0x85, 0x85), (0xA0, 0xA0), (0x1680, 0x1680), (0x2000, 0x200A), (0x2028, 0x202F),
    (0x205F, 0x205F), (0x3000, 0x3000)]

namespace LowerRun

/-- The lower-case form of the first character of a run. -/
def imageFirst (r : LowerRun) : Nat := Int.toNat (r.first + r.shift)

/-- The lower-case form of the last character of a run. -/
def imageLast (r : LowerRun) : Nat := Int.toNat (r.last + r.shift)

/-- Whether two ranges do not meet. -/
def avoids (first last : Nat) (range : Nat × Nat) : Bool :=
  Nat.blt last range.1 || Nat.blt range.2 first

/-- Whether a run maps characters to characters, neither of them blank, and to no capital letter of
    ASCII and no `İ`. -/
def isProper (r : LowerRun) : Bool :=
  (r.step == 1 || r.step == 2) && -(r.first : Int) ≤ r.shift && r.first ≤ r.last &&
    (r.imageLast < 0xD800 || (0xDFFF < r.imageFirst && r.imageLast < 0x110000)) &&
    (128 ≤ r.imageFirst || (0x61 ≤ r.imageFirst && r.imageLast ≤ 0x7A)) &&
    blankRanges.all (avoids r.first r.last) &&
    ((0x130, 0x130) :: blankRanges).all (avoids r.imageFirst r.imageLast)

/-- Whether a run covers none of `first`, `first + step`, … `last`. -/
def apart (first last step : Nat) (s : LowerRun) : Bool :=
  avoids first last (s.first, s.last) ||
    ((step == 2 || first == last) && s.step == 2 && (first + s.first) % 2 == 1)

end LowerRun

/-- All runs of the table are proper. -/
theorem lowerRuns_proper : ∀ r ∈ lowerRuns, r.isProper = true := by
  rw [← List.all_eq_true]
  decide +kernel

/-- No run covers what a run maps to. -/
theorem lowerRuns_apart : ∀ r ∈ lowerRuns, ∀ s ∈ lowerRuns,
    LowerRun.apart r.imageFirst r.imageLast r.step s = true := by
  have h : (lowerRuns.all fun r =>
      lowerRuns.all (LowerRun.apart r.imageFirst r.imageLast r.step)) = true := by
    decide +kernel
  intro r hr
  exact List.all_eq_true.mp (List.all_eq_true.mp h r hr)

/-- A character beyond ASCII is not blank if it lies in none of the ranges of blanks. -/
theorem isBlank_eq_false {n : Nat} {c : Char} (hn : c.toNat = n) (ha : 128 ≤ n)
    (h : blankRanges.all (LowerRun.avoids n n) = true) : isBlank c = false := by
  simp only [blankRanges, LowerRun.avoids, List.all_cons, List.all_nil, Bool.and_true,
    Bool.and_eq_true, Bool.or_eq_true, Nat.blt_eq] at h
  unfold isBlank
  rw [hn]
  grind

/-- What a range does not meet, none of its characters meets. -/
theorem avoids_mono {first last n : Nat} {ranges : List (Nat × Nat)} (hf : first ≤ n) (hl : n ≤ last)
    (h : ranges.all (LowerRun.avoids first last) = true) :
    ranges.all (LowerRun.avoids n n) = true := by
  rw [List.all_eq_true] at h ⊢
  intro range hr
  have h' := h range hr
  simp only [LowerRun.avoids, Bool.or_eq_true, Nat.blt_eq] at h' ⊢
  omega

/-- What a character covered by a run is mapped to, in numbers. -/
theorem LowerRun.image_bounds {r : LowerRun} (hr : r ∈ lowerRuns) {n m : Nat}
    (hn : r.covers n = true) (hm : Int.toNat (n + r.shift) = m) :
    r.imageFirst ≤ m ∧ m ≤ r.imageLast ∧ m - r.imageFirst = n - r.first := by
  have hp := lowerRuns_proper r hr
  simp only [isProper, Bool.and_eq_true, decide_eq_true_eq] at hp
  simp only [covers, Bool.and_eq_true, decide_eq_true_eq] at hn
  unfold imageFirst imageLast
  omega

/-- No run covers what a run maps to. -/
theorem LowerRun.covers_image_eq_false {r s : LowerRun} (hr : r ∈ lowerRuns) (hs : s ∈ lowerRuns)
    {n m : Nat} (hn : r.covers n = true) (hm : Int.toNat (n + r.shift) = m) :
    s.covers m = false := by
  obtain ⟨hfirst, hlast, hdist⟩ := image_bounds hr hn hm
  have hapart := lowerRuns_apart r hr s hs
  simp only [apart, avoids, Bool.or_eq_true, Bool.and_eq_true, Nat.blt_eq, beq_iff_eq] at hapart
  simp only [covers, Bool.and_eq_true, beq_iff_eq] at hn
  rw [Bool.eq_false_iff]
  intro hcov
  simp only [covers, Bool.and_eq_true, decide_eq_true_eq, beq_iff_eq] at hcov
  obtain ⟨⟨hsf, hsl⟩, hmod⟩ := hcov
  -- either the ranges do not meet, or they hold every other character and never the same one
  rcases hapart with hfar | ⟨⟨hstep | hone, hsstep⟩, hparity⟩
  · omega
  · rw [hsstep] at hmod
    rw [hstep] at hn
    omega
  · rw [hsstep] at hmod
    omega

/-- What a run covers is not caseless, and what it maps to is settled. -/
theorem LowerRun.settled {r : LowerRun} (hr : r ∈ lowerRuns) {c : Char} (ha : 128 ≤ c.toNat)
    (hc : r.covers c.toNat = true) :
    caseless c = false ∧ Settled (Char.ofNat (Int.toNat (c.toNat + r.shift))) := by
  have hp := lowerRuns_proper r hr
  simp only [isProper, Bool.and_eq_true, Bool.or_eq_true, decide_eq_true_eq, List.all_cons] at hp
  obtain ⟨⟨⟨⟨-, hvalid⟩, hascii⟩, hblank⟩, hcap, hblank'⟩ := hp
  simp only [avoids, Bool.or_eq_true, Nat.blt_eq] at hcap
  generalize hm : Int.toNat (c.toNat + r.shift) = m
  obtain ⟨hmf, hml, -⟩ := image_bounds hr hc hm
  -- the table is not applied to what it maps to, so that is fixed
  have huncovered : ∀ s ∈ lowerRuns, s.covers m = false :=
    fun s hs => covers_image_eq_false hr hs hc hm
  have hchar : m.isValidChar := by
    unfold Nat.isValidChar
    omega
  have htoNat : (Char.ofNat m).toNat = m := by
    rw [Char.ofNat, dif_pos hchar]
    rfl
  simp only [covers, Bool.and_eq_true, decide_eq_true_eq] at hc
  refine ⟨?_, ?_, ?_, ?_⟩
  · -- what is covered lies beyond ASCII, and is not blank
    rw [caseless, isBlank_eq_false rfl ha (avoids_mono hc.1.1 hc.1.2 hblank)]
    simp
    omega
  · rcases hascii with hascii | hascii
    · rw [caseless, isBlank_eq_false htoNat (by omega) (avoids_mono hmf hml hblank'), htoNat]
      simp
      omega
    · have : ∀ n < 128, 0x61 ≤ n → n ≤ 0x7A → caseless (Char.ofNat n) = false := by
        decide +kernel
      exact this m (by omega) (by omega) (by omega)
  · unfold lowerChar
    rw [htoNat]
    rcases hascii with hascii | hascii
    · rw [if_neg (by omega), if_neg, List.find?_eq_none.mpr]
      · intro s hs
        simp [huncovered s hs]
      · intro hI
        have := congrArg Char.toNat hI
        rw [htoNat, show 'İ'.toNat = 0x130 from rfl] at this
        omega
    · have : ∀ n < 128, 0x61 ≤ n → n ≤ 0x7A → (Char.ofNat n).toLower = Char.ofNat n := by
        decide +kernel
      rw [if_pos (by omega), this m (by omega) (by omega) (by omega)]
  · -- the capital sigma is covered by a run itself
    intro hs
    have := congrArg Char.toNat hs
    rw [htoNat] at this
    have hcov := huncovered ⟨0x03A3, 0x03AB, 1, 32⟩ (by decide +kernel)
    rw [this] at hcov
    exact absurd hcov (by decide)

/-! ## Single characters -/

/-- The characters of ASCII, read off one by one. -/
theorem lowerChar_ascii : ∀ n < 128,
    lowerChar (Char.ofNat n) = [(Char.ofNat n).toLower] ∧
      if caseless (Char.ofNat n) = true then (Char.ofNat n).toLower = Char.ofNat n
      else caseless (Char.ofNat n).toLower = false ∧
        lowerChar (Char.ofNat n).toLower = [(Char.ofNat n).toLower] ∧
        (Char.ofNat n).toLower ≠ 'Σ' := by
  decide +kernel

/-- A caseless character is its own lower-case form; that of any other one is settled. -/
theorem lowerChar_spec (c : Char) :
    (caseless c = true ∧ lowerChar c = [c]) ∨
      (caseless c = false ∧ lowerChar c ≠ [] ∧ ∀ d ∈ lowerChar c, Settled d) := by
  -- a character of ASCII, `İ`, one that a run covers, or one that stays as it is
  by_cases ha : c.toNat < 128
  · obtain ⟨hlower, hcase⟩ := lowerChar_ascii c.toNat ha
    rw [Char.ofNat_toNat] at hlower hcase
    rw [hlower]
    cases hc : caseless c with
    | true =>
      rw [hc, if_pos rfl] at hcase
      exact .inl ⟨rfl, by rw [hcase]⟩
    | false =>
      rw [hc, if_neg (by simp)] at hcase
      refine .inr ⟨rfl, by simp, fun d hd => ?_⟩
      rw [List.mem_singleton.mp hd]
      exact ⟨hcase.1, hcase.2.1, hcase.2.2⟩
  -- the one character whose lower-case form is two
  · by_cases hI : c = 'İ'
    · subst hI
      refine .inr ⟨by decide +kernel, by decide +kernel, fun d hd => ?_⟩
      have hd' : d = 'i' ∨ d = '\u0307' := by simpa [lowerChar] using hd
      rcases hd' with rfl | rfl
      · exact ⟨by decide +kernel, by decide +kernel, by decide⟩
      · exact ⟨by decide +kernel, by decide +kernel, by decide⟩
    · cases hfind : lowerRuns.find? (·.covers c.toNat) with
      | some r =>
        have hcov : r.covers c.toNat = true := by
          simpa using List.find?_some hfind
        obtain ⟨hcased, hsettled⟩ := LowerRun.settled (List.mem_of_find?_eq_some hfind)
          (Nat.le_of_not_lt ha) hcov
        refine .inr ⟨hcased, ?_⟩
        rw [lowerChar, if_neg ha, if_neg hI, hfind]
        refine ⟨by simp, fun d hd => ?_⟩
        rw [List.mem_singleton.mp hd]
        exact hsettled
      | none =>
        have hlower : lowerChar c = [c] := by
          rw [lowerChar, if_neg ha, if_neg hI, hfind]
        cases hc : caseless c with
        | true => exact .inl ⟨rfl, hlower⟩
        | false =>
          refine .inr ⟨rfl, by simp [hlower], fun d hd => ?_⟩
          rw [hlower] at hd
          rw [List.mem_singleton.mp hd]
          refine ⟨hc, hlower, ?_⟩
          rintro rfl
          exact absurd hfind (by decide +kernel)

/-! ## Texts -/

/-- What stands in the lower-case form of a text in the place of `c`. -/
def lowerAt (before : List Char) (c : Char) (rest : List Char) : List Char :=
  if c = 'Σ' then [if meetsCased before && !meetsCased rest then 'ς' else 'σ'] else lowerChar c

/-- A text is lower-cased character by character, each in its place. -/
theorem lowerFrom_cons (before : List Char) (c : Char) (rest : List Char) :
    lowerFrom before (c :: rest) = lowerAt before c rest ++ lowerFrom (c :: before) rest := rfl

/-- The specification of `lowerChar`, for a character in its place. -/
theorem lowerAt_spec (before : List Char) (c : Char) (rest : List Char) :
    (caseless c = true ∧ lowerAt before c rest = [c]) ∨
      (caseless c = false ∧ lowerAt before c rest ≠ [] ∧ ∀ d ∈ lowerAt before c rest, Settled d) := by
  -- only a sigma depends on its place
  by_cases hs : c = 'Σ'
  · subst hs
    refine .inr ⟨by decide +kernel, by simp [lowerAt], fun d hd => ?_⟩
    have hd' : d = 'ς' ∨ d = 'σ' := by
      rw [lowerAt, if_pos rfl, List.mem_singleton] at hd
      split at hd
      · exact .inl hd
      · exact .inr hd
    rcases hd' with rfl | rfl
    · exact ⟨by decide +kernel, by decide +kernel, by decide⟩
    · exact ⟨by decide +kernel, by decide +kernel, by decide⟩
  · rw [lowerAt, if_neg hs]
    exact lowerChar_spec c

/-- The lower-case form of a text is empty only if the text is. -/
theorem lowerFrom_ne_nil {part : List Char} (h : part ≠ []) (before : List Char) :
    lowerFrom before part ≠ [] := by
  obtain ⟨c, rest, rfl⟩ := List.exists_cons_of_ne_nil h
  rw [lowerFrom_cons]
  intro hnil
  have hfirst := (List.append_eq_nil_iff.mp hnil).1
  rcases lowerAt_spec before c rest with ⟨-, hlower⟩ | ⟨-, hne, -⟩
  · rw [hlower] at hfirst
    simp at hfirst
  · exact hne hfirst

/-- A text of characters that are their own lower-case forms is its own lower-case form. -/
theorem lowerFrom_of_fixed (cs : List Char) : ∀ before : List Char,
    (∀ d ∈ cs, lowerChar d = [d] ∧ d ≠ 'Σ') → lowerFrom before cs = cs := by
  induction cs with
  | nil =>
    intro before _
    rfl
  | cons c rest ih =>
    intro before h
    obtain ⟨hlower, hs⟩ := h c List.mem_cons_self
    rw [lowerFrom_cons, lowerAt, if_neg hs, hlower, List.singleton_append,
      ih (c :: before) fun d hd => h d (List.mem_cons_of_mem c hd)]

/-- The characters of a lower-case form are their own lower-case forms. -/
theorem fixed_of_mem_lowerFrom {cs : List Char} : ∀ {before : List Char} {d : Char},
    d ∈ lowerFrom before cs → lowerChar d = [d] ∧ d ≠ 'Σ' := by
  induction cs with
  | nil =>
    intro before d h
    simp [lowerFrom] at h
  | cons c rest ih =>
    intro before d h
    rw [lowerFrom_cons, List.mem_append] at h
    rcases h with h | h
    · rcases lowerAt_spec before c rest with ⟨hc, hlower⟩ | ⟨-, -, hall⟩
      · rw [hlower, List.mem_singleton] at h
        subst h
        have hs : d ≠ 'Σ' := by
          rintro rfl
          exact absurd hc (by decide +kernel)
        rw [lowerAt, if_neg hs] at hlower
        exact ⟨hlower, hs⟩
      · exact ⟨(hall d h).fixed, (hall d h).ne_sigma⟩
    · exact ih h

/-- The lower-case form of a text is its own lower-case form. -/
@[simp]
theorem lower_lower (s : String) : lower (lower s) = lower s := by
  unfold lower
  rw [String.toList_ofList,
    lowerFrom_of_fixed _ [] fun d hd => fixed_of_mem_lowerFrom hd]

/-- Lower-casing neither removes nor makes caseless characters. -/
theorem mem_lowerFrom {x : Char} (hx : caseless x = true) (cs : List Char) :
    ∀ before : List Char, x ∈ lowerFrom before cs ↔ x ∈ cs := by
  induction cs with
  | nil =>
    intro before
    rfl
  | cons c rest ih =>
    intro before
    rw [lowerFrom_cons, List.mem_append, List.mem_cons, ih (c :: before)]
    rcases lowerAt_spec before c rest with ⟨-, hlower⟩ | ⟨hc, -, hall⟩
    · rw [hlower, List.mem_singleton]
    -- neither the character nor what stands in its place is caseless
    · have hnot : x ∉ lowerAt before c rest := fun h =>
        absurd (hall x h).cased (by simp [hx])
      have hne : x ≠ c := by
        rintro rfl
        simp [hx] at hc
      simp [hnot, hne]

/-- Lower-casing a text neither removes nor makes caseless characters. -/
theorem mem_lower {x : Char} (hx : caseless x = true) (s : String) :
    x ∈ (lower s).toList ↔ x ∈ s.toList := by
  rw [lower, String.toList_ofList]
  exact mem_lowerFrom hx s.toList []

/-- An automaton that takes a step from each state with every character that is not caseless, always
    the same, and stays where that step has led, reads a text as it reads its lower-case form. -/
theorem foldl_lowerFrom {σ : Type} (step : σ → Char → σ)
    (hsame : ∀ s c d, caseless c = false → caseless d = false → step s c = step s d)
    (hstay : ∀ s c d, caseless c = false → caseless d = false → step (step s c) d = step s c)
    (cs : List Char) : ∀ (before : List Char) (s : σ),
      (lowerFrom before cs).foldl step s = cs.foldl step s := by
  -- one character's lower-case form leads where the character does
  have hrun : ∀ (ds : List Char) (s : σ) (c : Char), caseless c = false →
      (∀ d ∈ ds, caseless d = false) → ds.foldl step (step s c) = step s c := by
    intro ds
    induction ds with
    | nil =>
      intro s c _ _
      rfl
    | cons d ds ih =>
      intro s c hc hds
      rw [List.foldl_cons, hstay s c d hc (hds d List.mem_cons_self)]
      exact ih s c hc fun e he => hds e (List.mem_cons_of_mem d he)
  induction cs with
  | nil =>
    intro before s
    rfl
  | cons c rest ih =>
    intro before s
    rw [lowerFrom_cons, List.foldl_append, List.foldl_cons, ih (c :: before)]
    rcases lowerAt_spec before c rest with ⟨-, hlower⟩ | ⟨hc, hne, hall⟩
    · rw [hlower]
      rfl
    · obtain ⟨d, ds, hd⟩ := List.exists_cons_of_ne_nil hne
      rw [hd] at hall ⊢
      have hdc := (hall d List.mem_cons_self).cased
      rw [List.foldl_cons, hsame s d c hdc hc, hrun ds s c hc fun e he =>
        (hall e (List.mem_cons_of_mem d he)).cased]

/-- An automaton of that kind does not tell apart texts with one lower-case form. -/
theorem foldl_eq_of_lower_eq {σ : Type} (step : σ → Char → σ)
    (hsame : ∀ s c d, caseless c = false → caseless d = false → step s c = step s d)
    (hstay : ∀ s c d, caseless c = false → caseless d = false → step (step s c) d = step s c)
    {a b : String} (h : lower a = lower b) (s : σ) :
    a.toList.foldl step s = b.toList.foldl step s := by
  rw [← foldl_lowerFrom step hsame hstay a.toList [] s,
    ← foldl_lowerFrom step hsame hstay b.toList [] s]
  unfold lower at h
  rw [String.ofList_injective h]

/-! ## The letters A to Z -/

/-- The letters A to Z and a to z, by their code points. -/
theorem isAlpha_iff {c : Char} : c.isAlpha = true ↔
    (65 ≤ c.toNat ∧ c.toNat ≤ 90) ∨ (97 ≤ c.toNat ∧ c.toNat ≤ 122) := by
  show (decide ('A'.val ≤ c.val ∧ c.val ≤ 'Z'.val) ||
    (decide ('a'.val ≤ c.val) && decide (c.val ≤ 'z'.val))) = true ↔ _
  simp only [Bool.or_eq_true, Bool.and_eq_true, decide_eq_true_eq, UInt32.le_iff_toNat_le]
  exact Iff.rfl

/-- What is a letter in lower case is one. -/
theorem isAlpha_of_toLower {c : Char} (h : c.toLower.isAlpha = true) : c.isAlpha = true := by
  -- a capital letter, or a character that lower-casing leaves alone
  by_cases hup : 'A'.val ≤ c.val ∧ c.val ≤ 'Z'.val
  · simp only [UInt32.le_iff_toNat_le] at hup
    exact isAlpha_iff.mpr (.inl hup)
  · have hsame : c.toLower = c := dif_neg hup
    rwa [hsame] at h

theorem toNat_lt_of_isAlpha {c : Char} (h : c.isAlpha = true) : c.toNat < 128 := by
  have hbounds := isAlpha_iff.mp h
  omega

/-- Words that agree up to the case of the letters A to Z, one of them made of such letters. -/
theorem isAlpha_of_sameAscii {a b : List Char} (h : sameAscii a b = true)
    (hb : ∀ c ∈ b, c.toLower.isAlpha = true) : ∀ c ∈ a, c.isAlpha = true := by
  intro c hc
  apply isAlpha_of_toLower
  have hmem : c.toLower ∈ b.map Char.toLower := by
    rw [← beq_iff_eq.mp h]
    exact List.mem_map_of_mem hc
  obtain ⟨d, hd, he⟩ := List.mem_map.mp hmem
  rw [← he]
  exact hb d hd

/-- The lower-case form of letters A to Z is that of each one. -/
theorem lowerFrom_of_isAlpha {cs : List Char} (h : ∀ c ∈ cs, c.isAlpha = true) :
    ∀ before : List Char, lowerFrom before cs = cs.map Char.toLower := by
  induction cs with
  | nil =>
    intro before
    rfl
  | cons c rest ih =>
    intro before
    have hc := toNat_lt_of_isAlpha (h c List.mem_cons_self)
    have hs : c ≠ 'Σ' := by
      rintro rfl
      exact absurd hc (by decide)
    rw [lowerFrom_cons, ih (fun d hd => h d (List.mem_cons_of_mem c hd)), lowerAt, if_neg hs,
      lowerChar, if_pos hc]
    rfl

end Scim.Text
