import Scim.Proofs.Text.Casing

/-!
  # Lower-casing a part of a text

  A part of a text is lower-cased otherwise than the same characters on their own in one case only: a
  capital sigma is written `ς` at the end of a word, and where a word ends depends on what surrounds
  the part.

    * `lowerWithin` is the lower-case form of a part between what stands before and behind it, and
      the lower-case form of a text is made up of those of its parts (`lowerFrom_append`);
    * it is that of the part on its own unless a sigma turns (`lowerWithin_eq_iff`).  Two sigmas can
      turn: the last one, when the part ends with it and a letter comes next (`OpensAtEnd`), and the
      first one, when the part begins with it, a letter stands before, and the word ends there
      (`ClosesAtStart`).  The characters that words pass over, such as the apostrophe, do not count;
    * so a prefix or suffix of a text is a prefix or suffix of its lower-case form exactly if no
      sigma turns (`lowerFrom_prefix_iff`, `lowerFrom_suffix_iff`), and a part is found in it if none
      does (`infix_lowerFrom_append`).
-/

namespace Scim.Text

/-- Whether words pass over a character, so that it does not end them. -/
def passedOver (c : Char) : Bool := inRanges caseIgnorableRuns c

/-- Looking outward, what is passed over as a whole hides nothing, and all else hides the rest. -/
theorem meetsCased_append (near far : List Char) :
    meetsCased (near ++ far) =
      if near.all passedOver = true then meetsCased far else meetsCased near := by
  -- a character is passed over, or it decides
  induction near with
  | nil => rfl
  | cons c rest ih =>
    by_cases hc : passedOver c = true
    · have hstep : ∀ side, meetsCased (c :: side) = meetsCased side := by
        intro side
        unfold meetsCased
        rw [List.dropWhile_cons_of_pos (p := inRanges caseIgnorableRuns) hc]
      rw [List.cons_append, hstep, hstep, ih]
      simp [hc]
    · have hstep : ∀ side, meetsCased (c :: side) = inRanges casedRuns c := by
        intro side
        unfold meetsCased
        rw [List.dropWhile_cons_of_neg (p := inRanges caseIgnorableRuns) hc]
      rw [List.cons_append, hstep, hstep]
      simp [hc]

/-- There is no letter among what is passed over. -/
theorem meetsCased_of_all {side : List Char} (h : side.all passedOver = true) :
    meetsCased side = false := by
  have := meetsCased_append side []
  rwa [List.append_nil, if_pos h] at this

/-! ## The parts of a text -/

/-- The lower-case form of a part of a text: `before` lists what stands before it, nearest first, and
    `after` what comes next. -/
def lowerWithin (before : List Char) : List Char → List Char → List Char
  | [], _ => []
  | c :: rest, after => lowerAt before c (rest ++ after) ++ lowerWithin (c :: before) rest after

/-- The lower-case form of a text is made up of those of its parts, each in its place. -/
theorem lowerFrom_append (part after : List Char) : ∀ before : List Char,
    lowerFrom before (part ++ after) =
      lowerWithin before part after ++ lowerFrom (part.reverse ++ before) after := by
  induction part with
  | nil =>
    intro before
    rfl
  | cons c rest ih =>
    intro before
    rw [List.cons_append, lowerFrom_cons, ih (c :: before), lowerWithin, List.append_assoc,
      List.reverse_cons, List.append_assoc, List.singleton_append]

/-- What comes next does not matter if nothing does. -/
theorem lowerWithin_nil (before part : List Char) :
    lowerWithin before part [] = lowerFrom before part := by
  have h := lowerFrom_append part [] before
  rw [List.append_nil, lowerFrom, List.append_nil] at h
  exact h.symm

/-- A character is written with equally many characters in any place. -/
theorem length_lowerAt (before before' : List Char) (c : Char) (rest rest' : List Char) :
    (lowerAt before c rest).length = (lowerAt before' c rest').length := by
  unfold lowerAt
  split <;> rfl

/-- Surroundings do not change the length of a lower-case form. -/
theorem length_lowerWithin (part after after' : List Char) : ∀ before before' : List Char,
    (lowerWithin before part after).length = (lowerWithin before' part after').length := by
  induction part with
  | nil =>
    intro before before'
    rfl
  | cons c rest ih =>
    intro before before'
    rw [lowerWithin, lowerWithin, List.length_append, List.length_append,
      length_lowerAt before before' c (rest ++ after) (rest ++ after'), ih (c :: before) (c :: before')]

/-- Whether a sigma between `before`, nearest first, and `after` ends a word. -/
def endsWord (before after : List Char) : Bool := meetsCased before && !meetsCased after

/-- A character is written alike in two places, unless it is a sigma that ends a word in one of them
    only. -/
theorem lowerAt_eq_iff (before before' : List Char) (c : Char) (rest rest' : List Char) :
    lowerAt before c rest = lowerAt before' c rest' ↔
      (c = 'Σ' → endsWord before rest = endsWord before' rest') := by
  by_cases hc : c = 'Σ'
  · have hshape : ∀ b b' : Bool, ((if b then 'ς' else 'σ') = if b' then 'ς' else 'σ') ↔ b = b' := by
      decide
    rw [lowerAt, if_pos hc, lowerAt, if_pos hc, List.singleton_inj, hshape]
    exact ⟨fun h _ => h, fun h => h hc⟩
  · rw [lowerAt, if_neg hc, lowerAt, if_neg hc]
    exact ⟨fun _ h => absurd h hc, fun _ => rfl⟩

/-- A part is written alike in two places if and only if each of its sigmas ends a word in both or
    in none. -/
theorem lowerWithin_eq_iff_sigmas (part after after' : List Char) : ∀ before before' : List Char,
    lowerWithin before part after = lowerWithin before' part after' ↔
      ∀ front back, part = front ++ 'Σ' :: back →
        endsWord (front.reverse ++ before) (back ++ after) =
          endsWord (front.reverse ++ before') (back ++ after') := by
  induction part with
  | nil =>
    intro before before'
    simp [lowerWithin]
  | cons c rest ih =>
    intro before before'
    show lowerAt before c (rest ++ after) ++ lowerWithin (c :: before) rest after =
      lowerAt before' c (rest ++ after') ++ lowerWithin (c :: before') rest after' ↔ _
    constructor
    · -- equal as a whole, both forms are equal at each character, for these are as long
      intro h front back hpart
      obtain ⟨hfirst, hrest⟩ := List.append_inj h (length_lowerAt _ _ _ _ _)
      cases front with
      | nil =>
        obtain ⟨hc, rfl⟩ := List.cons.inj hpart
        exact (lowerAt_eq_iff _ _ _ _ _).mp hfirst hc
      | cons d front =>
        obtain ⟨rfl, hback⟩ := List.cons.inj hpart
        simpa using (ih (c :: before) (c :: before')).mp hrest front back hback
    · intro hall
      have hfirst := (lowerAt_eq_iff before before' c (rest ++ after) (rest ++ after')).mpr
        fun hc => hall [] rest (by rw [hc]; rfl)
      have hrest := (ih (c :: before) (c :: before')).mpr fun front back hpart => by
        simpa using hall (c :: front) back (by rw [hpart]; rfl)
      rw [hfirst, hrest]

/-! ## The sigmas that turn -/

/-- The part ends with a sigma, what is passed over aside; it ends a word there, but with `after` the
    word goes on. -/
def OpensAtEnd (part after : List Char) : Prop :=
  ∃ front marks, part = front ++ 'Σ' :: marks ∧ marks.all passedOver = true ∧
    meetsCased front.reverse = true ∧ meetsCased after = true

/-- The part begins with a sigma, what is passed over aside; behind `before` it stands in a word,
    and between `before` and `after` it ends this word. -/
def ClosesAtStart (before part after : List Char) : Prop :=
  ∃ marks rest, part = marks ++ 'Σ' :: rest ∧ marks.all passedOver = true ∧
    meetsCased before.reverse = true ∧ meetsCased (rest ++ after) = false

/-- What more stands around a sigma matters if it is what the sigma meets. -/
theorem endsWord_append_eq_iff (near far near' far' : List Char) :
    endsWord (near ++ far) (near' ++ far') = endsWord near near' ↔
      ¬(near'.all passedOver = true ∧ meetsCased near = true ∧ meetsCased far' = true) ∧
        ¬(near.all passedOver = true ∧ meetsCased far = true ∧
          meetsCased (near' ++ far') = false) := by
  unfold endsWord
  rw [meetsCased_append near far, meetsCased_append near' far']
  -- either side may be passed over as a whole
  by_cases hn : near.all passedOver = true
  · rw [if_pos hn, meetsCased_of_all hn]
    cases meetsCased far <;> simp [hn]
  · rw [if_neg hn]
    by_cases hn' : near'.all passedOver = true
    · rw [if_pos hn', meetsCased_of_all hn']
      cases meetsCased near <;> simp [hn, hn']
    · rw [if_neg hn']
      simp [hn, hn']

/-- A part is written as on its own if and only if none of its sigmas turns. -/
theorem lowerWithin_eq_iff (before part after : List Char) :
    lowerWithin before.reverse part after = lowerFrom [] part ↔
      ¬OpensAtEnd part after ∧ ¬ClosesAtStart before part after := by
  rw [← lowerWithin_nil, lowerWithin_eq_iff_sigmas]
  simp only [List.append_nil, endsWord_append_eq_iff]
  constructor
  · intro h
    constructor
    · rintro ⟨front, marks, hpart, hmarks, hfront, hafter⟩
      exact (h front marks hpart).1 ⟨hmarks, hfront, hafter⟩
    · rintro ⟨marks, rest, hpart, hmarks, hbefore, hrest⟩
      refine (h marks rest hpart).2 ⟨?_, hbefore, hrest⟩
      rwa [List.all_reverse]
  · rintro ⟨hopens, hcloses⟩ front back hpart
    constructor
    · rintro ⟨hback, hfront, hafter⟩
      exact hopens ⟨front, back, hpart, hback, hfront, hafter⟩
    · rintro ⟨hfront, hbefore, hback⟩
      rw [List.all_reverse] at hfront
      exact hcloses ⟨front, back, hpart, hfront, hbefore, hback⟩

/-- Nothing stands before a part that a text begins with, so it closes no word there. -/
theorem not_closesAtStart_nil (part after : List Char) : ¬ClosesAtStart [] part after := by
  rintro ⟨marks, rest, -, -, hbefore, -⟩
  exact absurd hbefore (by decide)

/-- Nothing comes behind a part that a text ends with, so no word goes on. -/
theorem not_opensAtEnd_nil (part : List Char) : ¬OpensAtEnd part [] := by
  rintro ⟨front, marks, -, -, -, hafter⟩
  exact absurd hafter (by decide)

/-! ## Prefixes, suffixes and parts -/

/-- What a text begins with, its lower-case form begins with, unless the last sigma of it turns. -/
theorem lowerFrom_prefix_iff (part after : List Char) :
    lowerFrom [] part <+: lowerFrom [] (part ++ after) ↔ ¬OpensAtEnd part after := by
  have hwithin := lowerWithin_eq_iff [] part after
  rw [and_iff_left (not_closesAtStart_nil part after), List.reverse_nil] at hwithin
  rw [lowerFrom_append, ← hwithin]
  constructor
  · rintro ⟨rest, h⟩
    refine (List.append_inj h ?_).1.symm
    rw [← lowerWithin_nil]
    exact length_lowerWithin _ _ _ _ _
  · intro h
    rw [h]
    exact List.prefix_append _ _

/-- What a text ends with, its lower-case form ends with, unless the first sigma of it turns. -/
theorem lowerFrom_suffix_iff (before part : List Char) :
    lowerFrom [] part <:+ lowerFrom [] (before ++ part) ↔ ¬ClosesAtStart before part [] := by
  have hwithin := lowerWithin_eq_iff before part []
  rw [and_iff_right (not_opensAtEnd_nil part), lowerWithin_nil] at hwithin
  rw [lowerFrom_append, List.append_nil, ← hwithin]
  constructor
  · rintro ⟨front, h⟩
    refine (List.append_inj' h ?_).2.symm
    rw [← lowerWithin_nil, ← lowerWithin_nil]
    exact length_lowerWithin _ _ _ _ _
  · intro h
    rw [h]
    exact List.suffix_append _ _

/-- What stands in a text stands in its lower-case form, unless a sigma of it turns. -/
theorem infix_lowerFrom_append {before part after : List Char} (hopens : ¬OpensAtEnd part after)
    (hcloses : ¬ClosesAtStart before part after) :
    lowerFrom [] part <:+: lowerFrom [] (before ++ part ++ after) := by
  have hwithin := (lowerWithin_eq_iff before part after).mpr ⟨hopens, hcloses⟩
  refine ⟨lowerWithin [] before (part ++ after),
    lowerFrom (part.reverse ++ (before.reverse ++ [])) after, ?_⟩
  rw [List.append_assoc before, lowerFrom_append, lowerFrom_append, List.append_nil, hwithin,
    List.append_assoc]

/-! ## Parts with a sigma that turns somewhere -/

/-- A sigma ends the part, what is passed over aside, and a word of the part. -/
def SigmaAtEnd (part : List Char) : Prop :=
  ∃ front marks, part = front ++ 'Σ' :: marks ∧ marks.all passedOver = true ∧
    meetsCased front.reverse = true

/-- A sigma begins the part, what is passed over aside, and no letter follows it in its word. -/
def SigmaAtStart (part : List Char) : Prop :=
  ∃ marks rest, part = marks ++ 'Σ' :: rest ∧ marks.all passedOver = true ∧
    meetsCased rest = false

/-- A part with a sigma at its end has one. -/
theorem SigmaAtEnd.mem {part : List Char} (h : SigmaAtEnd part) : 'Σ' ∈ part := by
  obtain ⟨front, marks, rfl, -⟩ := h
  simp

theorem SigmaAtStart.mem {part : List Char} (h : SigmaAtStart part) : 'Σ' ∈ part := by
  obtain ⟨marks, rest, rfl, -⟩ := h
  simp

/-- A word goes on behind a part if it ends with a sigma and a letter comes next. -/
theorem opensAtEnd_iff (part after : List Char) :
    OpensAtEnd part after ↔ SigmaAtEnd part ∧ meetsCased after = true := by
  constructor
  · rintro ⟨front, marks, hpart, hmarks, hfront, hafter⟩
    exact ⟨⟨front, marks, hpart, hmarks, hfront⟩, hafter⟩
  · rintro ⟨⟨front, marks, hpart, hmarks, hfront⟩, hafter⟩
    exact ⟨front, marks, hpart, hmarks, hfront, hafter⟩

/-- A word ends with a part if the part begins with a sigma and a letter stands before it. -/
theorem closesAtStart_nil_iff (before part : List Char) :
    ClosesAtStart before part [] ↔ SigmaAtStart part ∧ meetsCased before.reverse = true := by
  constructor
  · rintro ⟨marks, rest, hpart, hmarks, hbefore, hrest⟩
    rw [List.append_nil] at hrest
    exact ⟨⟨marks, rest, hpart, hmarks, hrest⟩, hbefore⟩
  · rintro ⟨⟨marks, rest, hpart, hmarks, hrest⟩, hbefore⟩
    exact ⟨marks, rest, hpart, hmarks, hbefore, by rwa [List.append_nil]⟩

/-- What ends a word with more text behind it ends it without. -/
theorem ClosesAtStart.sigmaAtStart {before part after : List Char}
    (h : ClosesAtStart before part after) : SigmaAtStart part := by
  obtain ⟨marks, rest, hpart, hmarks, -, hrest⟩ := h
  refine ⟨marks, rest, hpart, hmarks, ?_⟩
  by_cases hover : rest.all passedOver = true
  · exact meetsCased_of_all hover
  · rwa [meetsCased_append, if_neg hover] at hrest

/-- There is a small letter other than a given character. -/
theorem exists_letter_ne (d : Option Char) :
    ∃ c, meetsCased [c] = true ∧ (∀ before rest, lowerAt before c rest = [c]) ∧ d ≠ some c := by
  have hplain : ∀ c, c ≠ 'Σ' → lowerChar c = [c] → ∀ before rest, lowerAt before c rest = [c] := by
    intro c hs hlower before rest
    rw [lowerAt, if_neg hs, hlower]
  by_cases hd : d = some 'a'
  · refine ⟨'b', by decide +kernel, hplain 'b' (by decide) (by decide +kernel), ?_⟩
    rw [hd]
    decide
  · exact ⟨'a', by decide +kernel, hplain 'a' (by decide) (by decide +kernel), hd⟩

/-- A part with a sigma at its end is not found in the lower-case form of some text that begins with
    it. -/
theorem SigmaAtEnd.exists_lost {part : List Char} (h : SigmaAtEnd part) :
    ∃ after, ¬lowerFrom [] part <:+: lowerFrom [] (part ++ after) := by
  have hlength : 0 < (lowerFrom [] part).length := by
    obtain ⟨front, marks, rfl, -⟩ := h
    exact List.length_pos_iff.mpr (lowerFrom_ne_nil (by simp) [])
  -- the text goes on with a letter that the form of the part does not end with
  obtain ⟨c, hcased, hlower, hlast⟩ := exists_letter_ne (lowerFrom [] part).getLast?
  refine ⟨[c], ?_⟩
  rw [lowerFrom_append, lowerFrom_cons, hlower, lowerFrom, List.append_nil, List.infix_concat_iff]
  -- it would stand at the very end, with the letter, or be what the part has become
  rintro (hsuffix | hpart)
  · apply hlast
    rw [← List.singleton_suffix_iff_getLast?_eq_some]
    exact List.suffix_of_suffix_length_le (List.suffix_append _ _) hsuffix hlength
  · have heq := hpart.eq_of_length (by
      rw [← lowerWithin_nil]
      exact length_lowerWithin _ _ _ _ _)
    have hturned := (lowerWithin_eq_iff [] part [c]).mp heq.symm
    exact hturned.1 ((opensAtEnd_iff part [c]).mpr ⟨h, hcased⟩)

/-- A part with a sigma at its start is not found in the lower-case form of some text that ends with
    it. -/
theorem SigmaAtStart.exists_lost {part : List Char} (h : SigmaAtStart part) :
    ∃ before, ¬lowerFrom [] part <:+: lowerFrom [] (before ++ part) := by
  have hlength : 0 < (lowerFrom [] part).length := by
    obtain ⟨marks, rest, rfl, -⟩ := h
    exact List.length_pos_iff.mpr (lowerFrom_ne_nil (by simp) [])
  -- before the part stands a letter that its form does not begin with
  obtain ⟨c, hcased, hlower, hfirst⟩ := exists_letter_ne (lowerFrom [] part).head?
  refine ⟨[c], ?_⟩
  rw [List.singleton_append, lowerFrom_cons, hlower, List.singleton_append, List.infix_cons_iff]
  rintro (hbegin | hpart)
  · apply hfirst
    rw [← List.singleton_prefix_iff_head?_eq_some]
    exact List.prefix_of_prefix_length_le (List.prefix_append [c] _) hbegin hlength
  · have heq := hpart.eq_of_length (by
      rw [← lowerWithin_nil, ← lowerWithin_nil]
      exact length_lowerWithin _ _ _ _ _)
    have hturned := (lowerWithin_eq_iff [c] part []).mp (by
      rw [lowerWithin_nil]
      exact heq.symm)
    exact hturned.2 ((closesAtStart_nil_iff [c] part).mpr ⟨h, hcased⟩)

/-- A part is found in the lower-case form of every text that it stands in, unless it has a sigma at
    its end or at its start. -/
theorem exists_lost_iff (part : List Char) :
    (∃ before after, ¬lowerFrom [] part <:+: lowerFrom [] (before ++ part ++ after)) ↔
      SigmaAtEnd part ∨ SigmaAtStart part := by
  constructor
  · rintro ⟨before, after, hnot⟩
    -- if no sigma turns, then the part is found
    by_cases hopens : OpensAtEnd part after
    · exact .inl ((opensAtEnd_iff part after).mp hopens).1
    · by_cases hcloses : ClosesAtStart before part after
      · exact .inr hcloses.sigmaAtStart
      · exact absurd (infix_lowerFrom_append hopens hcloses) hnot
  · rintro (hend | hstart)
    · obtain ⟨after, hnot⟩ := hend.exists_lost
      exact ⟨[], after, hnot⟩
    · obtain ⟨before, hnot⟩ := hstart.exists_lost
      exact ⟨before, [], by rwa [List.append_nil]⟩

end Scim.Text
