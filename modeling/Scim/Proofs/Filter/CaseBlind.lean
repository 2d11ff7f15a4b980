import Scim.Filter.Evaluation
import Scim.Proofs.Text.Sigma

/-!
  # Comparisons that ignore case

  To ignore case, value and operand are lower-cased, each on its own, before they are compared.  Two
  texts that are equal stay so.  But a text that begins with another one, ends with it or contains it
  need not do so in lower case, for a capital sigma at the edge of the operand may be written `ς`
  there and `σ` in the value.  No other match is lost:

    * `HoldsFor` says that an operator holds for a text and an operand, `Loses` that it does only
      while case is told apart;
    * each operator's test is one on the forms that are compared (`holdsFor_startsWith` and others);
    * a match is lost exactly where a sigma turns (`losesOnlyAtSigma`), and an operand without a sigma
      at an edge that the operator leaves open never loses one.
-/

namespace Scim

open Text

/-! ## The tests on texts -/

/-- A text occurs in another if it is a part of it. -/
theorem occursIn_iff (part : List Char) (text : List Char) :
    occursIn part text = true ↔ part <:+: text := by
  induction text with
  | nil => simp [occursIn]
  | cons c rest ih =>
    rw [occursIn, Bool.or_eq_true, List.isPrefixOf_iff_prefix, ih, List.infix_cons_iff]

/-- Texts that are neither less nor greater are equal. -/
theorem Text.compareChars_eq_eq_iff (as bs : List Char) : compareChars as bs = .eq ↔ as = bs := by
  induction as generalizing bs with
  | nil => cases bs <;> simp [compareChars]
  | cons a as ih =>
    cases bs with
    | nil => simp [compareChars]
    | cons b bs =>
      rw [compareChars, Ordering.then_eq_eq, ih, Nat.compare_eq_eq, Char.toNat_inj, List.cons.injEq]

/-! ## With and without case -/

/-- The attribute with case told apart or ignored. -/
def Attribute.withCase (a : Attribute) (exact : Bool) : Attribute := { a with caseExact := exact }

/-- What is compared of a text, with case told apart or ignored. -/
def Text.compared (exact : Bool) (s : String) : List Char :=
  if exact then s.toList else lowerFrom [] s.toList

@[simp]
theorem Text.compared_exact (s : String) : compared true s = s.toList := rfl

@[simp]
theorem Text.compared_lower (s : String) : compared false s = lowerFrom [] s.toList := rfl

variable {a : Attribute}

/-- Texts are compared in these forms. -/
theorem Attribute.comparable_withCase (h : a.type = .string) (exact : Bool) (s : String) :
    (a.withCase exact).comparable (.string s) = .string (String.ofList (Text.compared exact s)) := by
  have htype : (a.withCase exact).type = .string := h
  unfold Attribute.comparable
  simp only [htype]
  cases exact with
  | true =>
    rw [compared, if_pos rfl, String.ofList_toList]
    rfl
  | false => rfl

namespace BinaryOperator

/-- The operator holds for a text as the value of the attribute and a text as the operand. -/
def HoldsFor (op : BinaryOperator) (a : Attribute) (exact : Bool) (v w : String) : Prop :=
  Comparison.holds (.binary op (.string w)) (a.withCase exact) (.string v) = true

/-- The operator holds while case is told apart, and no longer when it is ignored. -/
def Loses (op : BinaryOperator) (a : Attribute) (v w : String) : Prop :=
  op.HoldsFor a true v w ∧ ¬op.HoldsFor a false v w

instance (op : BinaryOperator) (a : Attribute) (exact : Bool) (v w : String) :
    Decidable (op.HoldsFor a exact v w) := inferInstanceAs (Decidable (_ = true))

instance (op : BinaryOperator) (a : Attribute) (v w : String) : Decidable (op.Loses a v w) :=
  inferInstanceAs (Decidable (_ ∧ ¬_))

/-- What the operator says of the compared forms. -/
theorem holdsFor_iff (h : a.type = .string) (op : BinaryOperator) (exact : Bool) (v w : String) :
    op.HoldsFor a exact v w ↔ op.evaluate (.string (String.ofList (compared exact v)))
      (.string (String.ofList (compared exact w))) = true := by
  unfold HoldsFor Comparison.holds
  -- value and operand are lower-cased apart from each other
  rw [Attribute.comparable_withCase h, ← Attribute.comparable_withCase h exact w]
  rfl

/-- Two texts are equal if their compared forms are. -/
theorem holdsFor_equal (h : a.type = .string) (exact : Bool) (v w : String) :
    equal.HoldsFor a exact v w ↔ compared exact v = compared exact w := by
  rw [holdsFor_iff h]
  simp [equal, Value.compare, compareChars_eq_eq_iff]

/-- The compared form of the operand is a prefix. -/
theorem holdsFor_startsWith (h : a.type = .string) (exact : Bool) (v w : String) :
    startsWith.HoldsFor a exact v w ↔ compared exact w <+: compared exact v := by
  rw [holdsFor_iff h]
  simp [startsWith, onTexts]

/-- The compared form of the operand is a suffix. -/
theorem holdsFor_endsWith (h : a.type = .string) (exact : Bool) (v w : String) :
    endsWith.HoldsFor a exact v w ↔ compared exact w <:+ compared exact v := by
  rw [holdsFor_iff h]
  simp [endsWith, onTexts]

/-- The compared form of the operand is a part. -/
theorem holdsFor_contains (h : a.type = .string) (exact : Bool) (v w : String) :
    contains.HoldsFor a exact v w ↔ compared exact w <:+: compared exact v := by
  rw [holdsFor_iff h]
  simp [contains, onTexts, occursIn_iff]

/-! ## What is lost -/

/-- Equal texts are equal in any form. -/
theorem not_loses_equal (h : a.type = .string) (v w : String) : ¬equal.Loses a v w := by
  rintro ⟨hexact, hblind⟩
  rw [holdsFor_equal h, compared_exact, compared_exact] at hexact
  rw [holdsFor_equal h, compared_lower, compared_lower, hexact] at hblind
  exact hblind rfl

/-- A prefix is lost if its last letter is a sigma that ends a word there, but not in the value. -/
theorem loses_startsWith_iff (h : a.type = .string) (v w : String) :
    startsWith.Loses a v w ↔
      ∃ after, v.toList = w.toList ++ after ∧ OpensAtEnd w.toList after := by
  unfold Loses
  rw [holdsFor_startsWith h, holdsFor_startsWith h]
  constructor
  · rintro ⟨⟨after, hv⟩, hblind⟩
    -- the value goes on behind the operand, and its lower-case form no longer begins with that of
    -- it
    refine ⟨after, hv.symm, ?_⟩
    rw [compared_exact, compared_exact] at hv
    rwa [compared_lower, compared_lower, ← hv, lowerFrom_prefix_iff, Classical.not_not] at hblind
  · rintro ⟨after, hv, hopens⟩
    refine ⟨⟨after, hv.symm⟩, ?_⟩
    rwa [compared_lower, compared_lower, hv, lowerFrom_prefix_iff, Classical.not_not]

/-- A suffix is lost if its first letter is a sigma that ends a word in the value, but not there. -/
theorem loses_endsWith_iff (h : a.type = .string) (v w : String) :
    endsWith.Loses a v w ↔
      ∃ before, v.toList = before ++ w.toList ∧ ClosesAtStart before w.toList [] := by
  unfold Loses
  rw [holdsFor_endsWith h, holdsFor_endsWith h]
  constructor
  · rintro ⟨⟨before, hv⟩, hblind⟩
    refine ⟨before, hv.symm, ?_⟩
    rw [compared_exact, compared_exact] at hv
    rwa [compared_lower, compared_lower, ← hv, lowerFrom_suffix_iff, Classical.not_not] at hblind
  · rintro ⟨before, hv, hcloses⟩
    refine ⟨⟨before, hv.symm⟩, ?_⟩
    rwa [compared_lower, compared_lower, hv, lowerFrom_suffix_iff, Classical.not_not]

/-- A part is lost if no part of the value in lower case is its lower-case form. -/
theorem loses_contains_iff (h : a.type = .string) (v w : String) :
    contains.Loses a v w ↔ w.toList <:+: v.toList ∧
      ¬lowerFrom [] w.toList <:+: lowerFrom [] v.toList := by
  unfold Loses
  rw [holdsFor_contains h, holdsFor_contains h]
  rfl

/-- A part that is no longer found has a sigma that turns wherever it stands. -/
theorem Loses.turns_of_contains (h : a.type = .string) {v w : String}
    (hloses : contains.Loses a v w) {before after : List Char}
    (hv : v.toList = before ++ w.toList ++ after) :
    OpensAtEnd w.toList after ∨ ClosesAtStart before w.toList after := by
  have hblind := ((loses_contains_iff h v w).mp hloses).2
  rw [hv] at hblind
  by_cases hopens : OpensAtEnd w.toList after
  · exact .inl hopens
  · by_cases hcloses : ClosesAtStart before w.toList after
    · exact .inr hcloses
    · exact absurd (infix_lowerFrom_append hopens hcloses) hblind

/-! ## The operands that lose -/

/-- With a letter behind it, a sigma at the end of the operand is lost. -/
theorem exists_loses_startsWith_iff (h : a.type = .string) (w : String) :
    (∃ v, startsWith.Loses a v w) ↔ SigmaAtEnd w.toList := by
  constructor
  · rintro ⟨v, hloses⟩
    obtain ⟨after, -, hopens⟩ := (loses_startsWith_iff h v w).mp hloses
    exact ((opensAtEnd_iff w.toList after).mp hopens).1
  · intro hend
    refine ⟨String.ofList (w.toList ++ ['a']), (loses_startsWith_iff h _ w).mpr ⟨['a'], ?_, ?_⟩⟩
    · rw [String.toList_ofList]
    · exact (opensAtEnd_iff w.toList ['a']).mpr ⟨hend, by decide +kernel⟩

/-- With a letter before it, a sigma at the start of the operand is lost. -/
theorem exists_loses_endsWith_iff (h : a.type = .string) (w : String) :
    (∃ v, endsWith.Loses a v w) ↔ SigmaAtStart w.toList := by
  constructor
  · rintro ⟨v, hloses⟩
    obtain ⟨before, -, hcloses⟩ := (loses_endsWith_iff h v w).mp hloses
    exact hcloses.sigmaAtStart
  · intro hstart
    refine ⟨String.ofList (['a'] ++ w.toList), (loses_endsWith_iff h _ w).mpr ⟨['a'], ?_, ?_⟩⟩
    · rw [String.toList_ofList]
    · exact (closesAtStart_nil_iff ['a'] w.toList).mpr ⟨hstart, by decide +kernel⟩

/-- A part may be lost for a sigma at either edge. -/
theorem exists_loses_contains_iff (h : a.type = .string) (w : String) :
    (∃ v, contains.Loses a v w) ↔ SigmaAtEnd w.toList ∨ SigmaAtStart w.toList := by
  rw [← exists_lost_iff]
  constructor
  · rintro ⟨v, hloses⟩
    obtain ⟨⟨before, after, hv⟩, hblind⟩ := (loses_contains_iff h v w).mp hloses
    exact ⟨before, after, by rwa [hv]⟩
  · rintro ⟨before, after, hblind⟩
    refine ⟨String.ofList (before ++ w.toList ++ after), (loses_contains_iff h _ w).mpr ?_⟩
    rw [String.toList_ofList]
    exact ⟨⟨before, after, rfl⟩, hblind⟩

/-! ## All together -/

/-- What ignoring case loses of the matches of an attribute. -/
structure LosesOnlyAtSigma (a : Attribute) : Prop where
  /-- Two texts that are equal stay so. -/
  never_equal : ∀ v w, ¬equal.Loses a v w
  /-- The operand ends a word with a sigma, and in the value the word goes on. -/
  at_start : ∀ v w, startsWith.Loses a v w ↔
    ∃ after, v.toList = w.toList ++ after ∧ OpensAtEnd w.toList after
  /-- The operand begins with a sigma, and in the value this one ends a word. -/
  at_end : ∀ v w, endsWith.Loses a v w ↔
    ∃ before, v.toList = before ++ w.toList ∧ ClosesAtStart before w.toList []
  /-- One of the two happens everywhere in the value. -/
  within : ∀ v w, contains.Loses a v w →
    ∀ before after, v.toList = before ++ w.toList ++ after →
      OpensAtEnd w.toList after ∨ ClosesAtStart before w.toList after
  /-- These operands are safe with every value, and no others are. -/
  safe_at_start : ∀ w, (∀ v, ¬startsWith.Loses a v w) ↔ ¬SigmaAtEnd w.toList
  safe_at_end : ∀ w, (∀ v, ¬endsWith.Loses a v w) ↔ ¬SigmaAtStart w.toList
  safe_within : ∀ w, (∀ v, ¬contains.Loses a v w) ↔
    ¬SigmaAtEnd w.toList ∧ ¬SigmaAtStart w.toList

/-- A match that holds while case is told apart is lost without case only where a sigma turns; the
    operands that can lose one are those with a sigma at an edge that the operator leaves open. -/
theorem losesOnlyAtSigma (a : Attribute) (h : a.type = .string) : LosesOnlyAtSigma a where
  never_equal := not_loses_equal h
  at_start := loses_startsWith_iff h
  at_end := loses_endsWith_iff h
  within := fun _ _ hloses _ _ hv => hloses.turns_of_contains h hv
  safe_at_start w := by rw [← not_exists, exists_loses_startsWith_iff h]
  safe_at_end w := by rw [← not_exists, exists_loses_endsWith_iff h]
  safe_within w := by rw [← not_exists, exists_loses_contains_iff h, not_or]

/-- The name of a hero. -/
def heroName : Attribute where
  name := ⟨"heroName", by decide +kernel⟩
  kind := .simple .string

/-- The beginning `ΟΔΥΣ` of `ΟΔΥΣΣΕΥΣ` is lost, and a part `ΟΔΥ` never is. -/
theorem losesOnlyAtSigma_heroName :
    heroName.type = .string ∧ startsWith.Loses heroName "ΟΔΥΣΣΕΥΣ" "ΟΔΥΣ" ∧
      ∀ v, ¬contains.Loses heroName v "ΟΔΥ" := by
  have htype : heroName.type = .string := rfl
  have hopens : OpensAtEnd "ΟΔΥΣ".toList ['Σ', 'Ε', 'Υ', 'Σ'] :=
    ⟨['Ο', 'Δ', 'Υ'], [], by decide +kernel⟩
  have hsafe : ¬SigmaAtEnd "ΟΔΥ".toList ∧ ¬SigmaAtStart "ΟΔΥ".toList :=
    ⟨fun hend => absurd hend.mem (by decide +kernel),
      fun hstart => absurd hstart.mem (by decide +kernel)⟩
  have hloses := losesOnlyAtSigma heroName htype
  exact ⟨htype, (hloses.at_start _ _).mpr ⟨_, by decide +kernel, hopens⟩,
    (hloses.safe_within _).mpr hsafe⟩

/-- `ΟΔΥΣΣΕΥΣ` starts with `ΟΔΥΣ` and contains it, but neither once case is ignored; nor does `ΑΣ`
    end with `Σ` then. -/
theorem loses_heroName :
    startsWith.Loses heroName "ΟΔΥΣΣΕΥΣ" "ΟΔΥΣ" ∧ contains.Loses heroName "ΟΔΥΣΣΕΥΣ" "ΟΔΥΣ" ∧
      endsWith.Loses heroName "ΑΣ" "Σ" ∧
      ¬ ∀ op ∈ [equal, contains, startsWith, endsWith], ∀ (a : Attribute) (v w : String),
        a.type = .string → op.HoldsFor a true v w → op.HoldsFor a false v w := by
  have hstarts : startsWith.Loses heroName "ΟΔΥΣΣΕΥΣ" "ΟΔΥΣ" := by decide +kernel
  have hcontains : contains.Loses heroName "ΟΔΥΣΣΕΥΣ" "ΟΔΥΣ" := by decide +kernel
  have hends : endsWith.Loses heroName "ΑΣ" "Σ" := by decide +kernel
  refine ⟨hstarts, hcontains, hends, ?_⟩
  intro hall
  exact hstarts.2 (hall startsWith (by simp) heroName _ _ rfl hstarts.1)

end BinaryOperator

end Scim
