import Scim.Proofs.Attribute.Kinds

/-!
  # The order of values

  Comparing is partial, and values that do not compare count as equal where resources are sorted.
  Over all values this is no order: `1` counts as equal to `"a"` and `"a"` to `2`.  It is one among
  the values that one attribute is sorted by (`AttributeType.Keys`), and there it is the order one
  expects (`Value.AtMost`): that of texts, of numbers, of moments.  Decimals are left out, since one
  of them may be no number.
-/

namespace Scim

/-! ## Texts -/

namespace Text

/-- Comparing texts the other way round has the opposite result. -/
theorem compareChars_swap (as bs : List Char) :
    compareChars bs as = (compareChars as bs).swap := by
  induction as generalizing bs with
  | nil => cases bs <;> rfl
  | cons a as ih =>
    cases bs with
    | nil => rfl
    | cons b bs => rw [compareChars, compareChars, ih, Ordering.swap_then, Nat.compare_swap]

/-- A text compares as greater just if it comes later in the order of texts. -/
theorem compareChars_eq_gt_iff (as bs : List Char) : compareChars as bs = .gt ↔ bs < as := by
  -- along both texts, up to the first character in which they differ
  induction as generalizing bs with
  | nil => cases bs <;> simp [compareChars]
  | cons a as ih =>
    cases bs with
    | nil => simp [compareChars]
    | cons b bs =>
      have hchar : b < a ↔ b.toNat < a.toNat := Iff.rfl
      rw [compareChars, Ordering.then_eq_gt, List.cons_lt_cons_iff, ih, Nat.compare_eq_gt,
        Nat.compare_eq_eq, Char.toNat_inj, hchar, eq_comm]

/-- It compares as no greater just if it comes no later. -/
theorem isLE_compareChars_iff (s t : String) :
    (compareChars s.toList t.toList).isLE = true ↔ s ≤ t := by
  have hlt : t < s ↔ t.toList < s.toList := Iff.rfl
  rw [Ordering.isLE_iff_ne_gt, compareChars_eq_gt_iff, ← hlt, String.not_lt]

end Text

/-! ## Values -/

/-- The order of values of one kind: texts by code points, false before true, integers by size,
    date-times by moment.  All lists are alike. -/
inductive Value.AtMost : Value → Value → Prop
  | string {s t : String} (h : s ≤ t) : AtMost (.string s) (.string t)
  | boolean {b c : Bool} (h : b = true → c = true) : AtMost (.boolean b) (.boolean c)
  | integer {m n : Int64} (h : m.toInt ≤ n.toInt) : AtMost (.integer m) (.integer n)
  | dateTime {t u : DateTime} (h : t.instant.1 < u.instant.1 ∨
      t.instant.1 = u.instant.1 ∧ t.instant.2 ≤ u.instant.2) : AtMost (.dateTime t) (.dateTime u)
  | list (items items' : List Value) : AtMost (.list items) (.list items')

/-- The order of values is transitive. -/
theorem Value.AtMost.trans {v v' v'' : Value} (h : v.AtMost v') (h' : v'.AtMost v'') :
    v.AtMost v'' := by
  cases h with
  | string h =>
    cases h' with
    | string h' => exact .string (String.le_trans h h')
  | boolean h =>
    cases h' with
    | boolean h' => exact .boolean (h' ∘ h)
  | integer h =>
    cases h' with
    | integer h' => exact .integer (Int.le_trans h h')
  | dateTime h =>
    cases h' with
    | dateTime h' => exact .dateTime (by omega)
  | list items =>
    cases h' with
    | list _ items' => exact .list items items'

/-- Comparing date-times the other way round has the opposite result. -/
theorem DateTime.compare_swap (t u : DateTime) : u.compare t = (t.compare u).swap := by
  rw [compare, compare, Ordering.swap_then, Nat.compare_swap, Int.compare_swap]

/-- A date-time compares as no greater just if its moment comes no later. -/
theorem DateTime.isLE_compare_iff {t u : DateTime} : (t.compare u).isLE = true ↔
    t.instant.1 < u.instant.1 ∨ t.instant.1 = u.instant.1 ∧ t.instant.2 ≤ u.instant.2 := by
  rw [compare, Ordering.isLE_then_iff_or, Std.compare_eq_lt, Std.compare_eq_iff_eq,
    Nat.isLE_compare]

/-- The values have an order: they are of one kind, and no decimals. -/
inductive Value.SortsWith : Value → Value → Prop
  | string (s t : String) : SortsWith (.string s) (.string t)
  | boolean (b c : Bool) : SortsWith (.boolean b) (.boolean c)
  | integer (m n : Int64) : SortsWith (.integer m) (.integer n)
  | dateTime (t u : DateTime) : SortsWith (.dateTime t) (.dateTime u)
  | list (items items' : List Value) : SortsWith (.list items) (.list items')

namespace Value.SortsWith

variable {v v' : Value}

/-- The other way round the comparison has the opposite result. -/
theorem compare_swap (h : v.SortsWith v') :
    (v'.compare v).getD .eq = ((v.compare v').getD .eq).swap := by
  cases h with
  | string s t => exact Text.compareChars_swap s.toList t.toList
  | boolean b c => exact (Nat.compare_swap b.toNat c.toNat).symm
  | integer m n => exact (Int.compare_swap m.toInt n.toInt).symm
  | dateTime t u => exact t.compare_swap u
  | list items items' => rfl

/-- What does not compare as greater is in order. -/
theorem isLE_compare_iff (h : v.SortsWith v') :
    ((v.compare v').getD .eq).isLE = true ↔ v.AtMost v' := by
  cases h with
  | string s t =>
    refine (Text.isLE_compareChars_iff s t).trans ⟨.string, fun h => ?_⟩
    cases h with
    | string h => exact h
  -- false comes before true, as zero before one
  | boolean b c =>
    refine Nat.isLE_compare.trans ⟨fun h => .boolean fun hb => ?_, fun h => ?_⟩
    · cases c with
      | true => rfl
      | false => simp [hb] at h
    · cases h with
      | boolean h =>
        cases b with
        | true => simp [h rfl]
        | false => simp
  | integer m n =>
    refine Int.isLE_compare.trans ⟨.integer, fun h => ?_⟩
    cases h with
    | integer h => exact h
  | dateTime t u =>
    refine DateTime.isLE_compare_iff.trans ⟨.dateTime, fun h => ?_⟩
    cases h with
    | dateTime h => exact h
  | list items items' => exact iff_of_true rfl (.list items items')

end Value.SortsWith

/-- What the values of a type are sorted by; of a sub-attribute that may have many, it is a list. -/
def AttributeType.Keys (type : AttributeType) (many : Bool) (key : Value) : Prop :=
  if many = true then ∃ items, key = .list items else type.Compares key

/-- What the values of one type are sorted by has an order. -/
theorem AttributeType.Keys.sortsWith {type : AttributeType} {many : Bool} {key key' : Value}
    (h : type.Keys many key) (h' : type.Keys many key') (hdecimal : type ≠ .decimal) :
    key.SortsWith key' := by
  cases many with
  | true =>
    obtain ⟨items, rfl⟩ := h
    obtain ⟨items', rfl⟩ := h'
    exact .list items items'
  | false =>
    -- each type has values of one kind
    cases type with
    | decimal => exact absurd rfl hdecimal
    | complex => exact h.elim
    | boolean =>
      obtain ⟨b, rfl⟩ := h
      obtain ⟨c, rfl⟩ := h'
      exact .boolean b c
    | integer =>
      obtain ⟨m, rfl⟩ := h
      obtain ⟨n, rfl⟩ := h'
      exact .integer m n
    | dateTime =>
      obtain ⟨t, rfl⟩ := h
      obtain ⟨u, rfl⟩ := h'
      exact .dateTime t u
    | string | reference | binary =>
      obtain ⟨s, rfl⟩ := h
      obtain ⟨t, rfl⟩ := h'
      exact .string s t

end Scim
