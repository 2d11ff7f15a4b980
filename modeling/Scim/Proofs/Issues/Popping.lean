import Scim.Proofs.Issues.Halting

/-!
  # Popping issues

  A pop takes issues out by code and place.  The two halves that it makes of a collection fit
  together again (`Splits`): what is popped is what is meant and lies at or below the place, what is
  left is all the rest as it was, and merging the one back into the other restores every place.

  The errors and the warnings are divided entry by entry, whatever the collection.  The marks of what
  halts are divided by the errors beside them, and so by their own codes in a collection that has a
  history (`Coherent.halts_select`, `Coherent.halts_drop`).
-/

namespace Scim

namespace Issues

variable {x : Issues} {errors warnings : Option (List Nat)} {below : Location}

/-- What is popped, and what is left, of a collection. -/
structure Splits (x : Issues) (errors warnings : Option (List Nat)) (below : Location)
    (popped left : Issues) : Prop where
  /-- What is popped is what was there to be seen. -/
  seen : popped = x.select errors warnings below
  /-- It consists of the errors with the codes meant at or below the place, at their way from there,
      and likewise of the warnings and the marks of what halts. -/
  errors_popped : popped.allErrors = x.allErrors.filterMap fun (l, e) =>
    if meant errors warnings e.code then
      (Location.relativeTo? l below).map fun m => (m, e)
    else none
  warnings_popped : popped.allWarnings = x.allWarnings.filterMap fun (l, w) =>
    if meant warnings errors w.code then
      (Location.relativeTo? l below).map fun m => (m, w)
    else none
  halts_popped : popped.halts = x.halts.filterMap fun (l, code) =>
    if meant errors warnings code then
      (Location.relativeTo? l below).map fun m => (m, code)
    else none
  /-- Nothing of the kind is left. -/
  gone : left.select errors warnings below = empty
  /-- All the rest is left as it was, in the same order. -/
  errors_left : left.allErrors = x.allErrors.filter fun (l, e) =>
    !(Location.startsWith l below && meant errors warnings e.code)
  warnings_left : left.allWarnings = x.allWarnings.filter fun (l, w) =>
    !(Location.startsWith l below && meant warnings errors w.code)
  halts_left : left.halts = x.halts.filter fun (l, code) =>
    !(Location.startsWith l below && meant errors warnings code)
  /-- Put back below the place, what was popped restores each place, up to the order. -/
  errors_back : ∀ l, ((left.merge popped below).errorsAt l).Perm (x.errorsAt l)
  warnings_back : ∀ l, ((left.merge popped below).warningsAt l).Perm (x.warningsAt l)
  halts_back : ∀ l code, (l, code) ∈ (left.merge popped below).halts ↔ (l, code) ∈ x.halts
  proceed_back : ∀ locs,
    (left.merge popped below).canProceedAtAll locs = x.canProceedAtAll locs

/-- Collections with the same marks give the same go-ahead. -/
theorem canProceedAt_congr {y : Issues} (h : ∀ l code, (l, code) ∈ y.halts ↔ (l, code) ∈ x.halts)
    (l : Location) : y.canProceedAt l = x.canProceedAt l := by
  have hiff : y.canProceedAt l = false ↔ x.canProceedAt l = false := by
    simp only [canProceedAt_eq_false_iff, h]
  cases hx : x.canProceedAt l with
  | false => exact hiff.mpr hx
  | true =>
    cases hy : y.canProceedAt l with
    | true => rfl
    | false =>
      rw [hiff.mp hy] at hx
      simp at hx

theorem eq_empty_iff : x = empty ↔ x.errors = [] ∧ x.warnings = [] ∧ x.halts = [] := by
  cases x
  simp [empty]

/-- Nothing of what a pop takes is left. -/
theorem Coherent.select_drop (h : x.Coherent) :
    (x.drop errors warnings below).select errors warnings below = empty := by
  have herrors : ((x.drop errors warnings below).select errors warnings below).errors = [] := by
    rw [errors_select, errors_drop, Filed.select_drop]
  have hwarnings : ((x.drop errors warnings below).select errors warnings below).warnings = [] := by
    rw [warnings_select, warnings_drop, Filed.select_drop]
  -- a mark without an error is none
  have hhalts : ((x.drop errors warnings below).select errors warnings below).halts = [] := by
    have hcoherent := (h.drop errors warnings below).select errors warnings below
    exact List.isEmpty_iff.mp (hcoherent.earnest (hasErrors_eq_false_iff.mpr herrors))
  exact eq_empty_iff.mpr ⟨herrors, hwarnings, hhalts⟩

/-- A mark is in one of the halves just if it was in the whole. -/
theorem Coherent.mem_halts_back (h : x.Coherent) {l : Location} {code : Nat} :
    (l, code) ∈ ((x.drop errors warnings below).merge (x.select errors warnings below) below).halts ↔
      (l, code) ∈ x.halts := by
  have hmerged : (l, code) ∈
      ((x.drop errors warnings below).merge (x.select errors warnings below) below).halts ↔
        (l, code) ∈ (x.drop errors warnings below).halts ∨
          ∃ m, (m, code) ∈ (x.select errors warnings below).halts ∧ below ++ m = l := by
    simp [Issues.merge]
  rw [hmerged, h.halts_drop, List.mem_filter]
  simp only [h.mem_halts_select, Bool.not_eq_true', Bool.and_eq_false_imp]
  constructor
  · rintro (⟨hmem, -⟩ | ⟨m, ⟨hmem, -⟩, rfl⟩)
    · exact hmem
    · exact hmem
  · -- a mark is left if its code is not meant or it lies elsewhere, and popped otherwise
    intro hmem
    cases hmeant : meant errors warnings code with
    | false => exact .inl ⟨hmem, fun _ => rfl⟩
    | true =>
      cases hbelow : Location.startsWith l below with
      | false => exact .inl ⟨hmem, by simp⟩
      | true =>
        obtain ⟨m, rfl⟩ := Location.startsWith_iff.mp hbelow
        exact .inr ⟨m, ⟨hmem, rfl⟩, rfl⟩

/-- A pop from a collection with any history splits it, without loss and without repetition. -/
theorem History.splits_pop (h : History) (errors warnings : Option (List Nat)) (below : Location) :
    Splits h.issues errors warnings below
      (h.issues.pop errors warnings below).1 (h.issues.pop errors warnings below).2 := by
  have hx := h.coherent
  generalize h.issues = x at hx
  show Splits x errors warnings below (x.select errors warnings below) (x.drop errors warnings below)
  have hback := (hx.drop errors warnings below).merge (hx.select errors warnings below) below
  constructor
  case seen => rfl
  case errors_popped => rw [allErrors, errors_select, Filed.all_select]; rfl
  case warnings_popped => rw [allWarnings, warnings_select, Filed.all_select]; rfl
  case halts_popped => exact hx.halts_select
  case gone => exact hx.select_drop
  case errors_left => rw [allErrors, errors_drop, Filed.all_drop]; rfl
  case warnings_left => rw [allWarnings, warnings_drop, Filed.all_drop]; rfl
  case halts_left => exact hx.halts_drop
  case errors_back =>
    refine hback.errors.under_perm hx.errors ?_
    show (Filed.merge (x.drop errors warnings below).errors _ below).all.Perm x.errors.all
    rw [errors_drop, errors_select]
    exact Filed.all_merge_select_perm _ _ _
  case warnings_back =>
    refine hback.warnings.under_perm hx.warnings ?_
    show (Filed.merge (x.drop errors warnings below).warnings _ below).all.Perm x.warnings.all
    rw [warnings_drop, warnings_select]
    exact Filed.all_merge_select_perm _ _ _
  case halts_back => exact fun l code => hx.mem_halts_back
  case proceed_back =>
    intro locs
    show locs.all _ = locs.all _
    congr 1
    funext l
    exact canProceedAt_congr (fun l code => hx.mem_halts_back) l

end Issues

end Scim
