import Mathlib.Data.List.TakeWhile
import Scim.Text.Blank

/-!
  # Texts cut of the blanks around them

  `trimBlanks` drops from both ends, by reversing the text in between.  What it leaves is told apart
  from what it drops by its first and its last character (`Trims`), and nothing else is left of the
  text (`trimBlanks_eq_iff`).
-/

namespace Scim.Text

variable {cs t : List Char}

/-- Between blanks stands a text that neither begins nor ends with one. -/
def Trims (cs t : List Char) : Prop :=
  ∃ lead tail, cs = lead ++ (t ++ tail) ∧ (∀ c ∈ lead, isBlank c = true) ∧
    (∀ c ∈ tail, isBlank c = true) ∧ (∀ c ∈ t.head?, isBlank c = false) ∧
    ∀ c ∈ t.getLast?, isBlank c = false

/-- A text that begins with no blank is left as it is. -/
theorem dropWhile_isBlank_eq_self (h : ∀ c ∈ cs.head?, isBlank c = false) :
    cs.dropWhile isBlank = cs := by
  cases cs with
  | nil => rfl
  | cons c rest => exact List.dropWhile_cons_of_neg (by simp [h c rfl])

/-- What is left begins with no blank. -/
theorem isBlank_of_head?_dropWhile : ∀ c ∈ (cs.dropWhile isBlank).head?, isBlank c = false := by
  intro c hc
  have h := List.head?_dropWhile_not isBlank cs
  rw [Option.mem_def.mp hc] at h
  simpa using h

/-- What is left of a text is what stands between its blanks. -/
theorem trimBlanks_eq_iff : trimBlanks cs = t ↔ Trims cs t := by
  constructor
  · intro h
    -- what is dropped from the end is dropped from the beginning of the reversed text
    have hfront := List.takeWhile_append_dropWhile (p := isBlank) (l := cs)
    generalize hmid : cs.dropWhile isBlank = mid at hfront
    have hback := List.takeWhile_append_dropWhile (p := isBlank) (l := mid.reverse)
    have ht : mid.reverse.dropWhile isBlank = t.reverse := by
      rw [← h, trimBlanks, hmid, List.reverse_reverse]
    rw [ht] at hback
    have hparts : mid = t ++ (mid.reverse.takeWhile isBlank).reverse := by
      rw [← List.reverse_inj, List.reverse_append, List.reverse_reverse]
      exact hback.symm
    refine ⟨cs.takeWhile isBlank, (mid.reverse.takeWhile isBlank).reverse, ?_, ?_, ?_, ?_, ?_⟩
    · rw [← hparts]
      exact hfront.symm
    · intro c hc
      exact List.mem_takeWhile_imp hc
    · intro c hc
      exact List.mem_takeWhile_imp (List.mem_reverse.mp hc)
    · intro c hc
      have hmem : c ∈ (cs.dropWhile isBlank).head? := by
        rw [hmid, hparts, List.head?_append, Option.mem_def.mp hc]
        rfl
      exact isBlank_of_head?_dropWhile c hmem
    · intro c hc
      rw [List.getLast?_eq_head?_reverse, ← ht] at hc
      exact isBlank_of_head?_dropWhile c hc
  · rintro ⟨lead, tail, rfl, hlead, htail, hhead, hlast⟩
    have htail' : ∀ c ∈ tail.reverse, isBlank c = true := fun c hc => htail c (List.mem_reverse.mp hc)
    -- nothing may be left, and then all of the text is blank
    cases t with
    | nil =>
      have hall : ∀ c ∈ lead ++ ([] ++ tail), isBlank c = true := by
        intro c hc
        rcases List.mem_append.mp hc with hc | hc
        · exact hlead c hc
        · exact htail c hc
      rw [trimBlanks, List.dropWhile_eq_nil_iff.mpr hall]
      rfl
    | cons c rest =>
      have hlast' : ∀ d ∈ (c :: rest).reverse.head?, isBlank d = false := by
        rwa [← List.getLast?_eq_head?_reverse]
      have hfront : (c :: rest ++ tail).dropWhile isBlank = c :: rest ++ tail :=
        dropWhile_isBlank_eq_self hhead
      rw [trimBlanks, List.dropWhile_append_of_pos hlead, hfront, List.reverse_append,
        List.dropWhile_append_of_pos htail', dropWhile_isBlank_eq_self hlast', List.reverse_reverse]

/-- A text without blanks is left as it is. -/
theorem trimBlanks_eq_self (h : ∀ c ∈ cs, isBlank c = false) : trimBlanks cs = cs :=
  trimBlanks_eq_iff.mpr ⟨[], [], by simp, by simp, by simp, fun c hc => h c (List.mem_of_head? hc),
    fun c hc => h c (List.mem_of_getLast? hc)⟩

end Scim.Text
