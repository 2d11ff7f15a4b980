import Scim.Proofs.Issues.Within

/-!
  # The same issues everywhere

  Collections list places in the order of their first use, so that the same issues, found in another
  order, make another list.  What can be asked of a collection is asked at a place, and there the
  order does not show (`Issues.SameEverywhere`).  It is enough to look below each first step
  (`Issues.SameEverywhere.of_within`).
-/

namespace Scim

namespace Filed

variable {α : Type} {f g : Filed α} {loc l : Location}

/-- At or below a place, looking there only makes no difference. -/
theorem under_within (h : loc <+: l) : (f.within loc).under l = f.under l := by
  obtain ⟨m, rfl⟩ := h
  rw [← under_relativeTo, relativeTo_within, under_relativeTo]

/-- What is added lies at its place, behind what was there. -/
theorem under_add (f : Filed α) (loc l : Location) (items : List α) :
    (f.add loc items).under l = if loc = l then f.under l ++ items else f.under l := by
  induction f with
  | nil => by_cases h : loc = l <;> simp [add, under, h]
  | cons entry f ih =>
    obtain ⟨m, old⟩ := entry
    by_cases hm : m = loc
    · by_cases h : loc = l <;> simp [add, under, hm, h]
    · by_cases hml : m = l
      · -- the entry is the one that is looked at, but not the one that is added to
        have hne : loc ≠ l := fun h => hm (hml.trans h.symm)
        simp [add, under, hml, hne, Ne.symm hne]
      · simp [add, under, hm, hml, ih]

end Filed

namespace Issues

variable {x y : Issues} {loc l : Location}

/-- At each place lie the same errors and warnings, and the same errors halt. -/
structure SameEverywhere (x y : Issues) : Prop where
  errorsAt : ∀ loc, x.errorsAt loc = y.errorsAt loc
  warningsAt : ∀ loc, x.warningsAt loc = y.warningsAt loc
  halts : ∀ loc, (x.halts.filter fun halt => halt.1 = loc) = y.halts.filter fun halt => halt.1 = loc

/-- The errors at a place are those found at or below any place above it. -/
theorem errorsAt_within (h : loc <+: l) : (x.within loc).errorsAt l = x.errorsAt l :=
  Filed.under_within h

theorem warningsAt_within (h : loc <+: l) : (x.within loc).warningsAt l = x.warningsAt l :=
  Filed.under_within h

/-- The marks at a place are kept, too. -/
theorem halts_within (h : loc <+: l) : ((x.within loc).halts.filter fun halt => halt.1 = l) =
    x.halts.filter fun halt => halt.1 = l := by
  rw [within, List.filter_filter]
  refine List.filter_congr fun halt _ => ?_
  by_cases hl : halt.1 = l
  · simp [hl, Location.startsWith_iff.mpr h]
  · simp [hl]

/-- Where nothing lies at the root, it is enough that the same lies below each first step. -/
theorem SameEverywhere.of_within (hx : [] ∉ x.places) (hy : [] ∉ y.places)
    (h : ∀ step, x.within [step] = y.within [step]) : x.SameEverywhere y := by
  simp only [mem_places, not_or] at hx hy
  have hstep : ∀ (step : Step) (rest : Location), [step] <+: step :: rest := fun step rest =>
    List.prefix_append [step] rest
  constructor
  · intro loc
    cases loc with
    | nil => exact (Filed.under_of_not_mem hx.1).trans (Filed.under_of_not_mem hy.1).symm
    | cons step rest =>
      rw [← errorsAt_within (hstep step rest), h, errorsAt_within (hstep step rest)]
  · intro loc
    cases loc with
    | nil => exact (Filed.under_of_not_mem hx.2.1).trans (Filed.under_of_not_mem hy.2.1).symm
    | cons step rest =>
      rw [← warningsAt_within (hstep step rest), h, warningsAt_within (hstep step rest)]
  · intro loc
    cases loc with
    | nil =>
      have hnone : ∀ {z : Issues}, [] ∉ z.halts.map (·.1) →
          (z.halts.filter fun halt => halt.1 = []) = [] := fun hz =>
        List.filter_eq_nil_iff.mpr fun halt hhalt hroot =>
          hz (List.mem_map.mpr ⟨halt, hhalt, of_decide_eq_true hroot⟩)
      rw [hnone hx.2.2, hnone hy.2.2]
    | cons step rest => rw [← halts_within (hstep step rest), h, halts_within (hstep step rest)]

/-- One more error makes no difference. -/
theorem SameEverywhere.addError (h : x.SameEverywhere y) (e : Error) (proceed : Bool)
    (loc : Location) : (x.addError e proceed loc).SameEverywhere (y.addError e proceed loc) where
  errorsAt l := by
    have herrors : x.errors.under l = y.errors.under l := h.errorsAt l
    show (x.errors.add loc [e]).under l = (y.errors.add loc [e]).under l
    rw [Filed.under_add, Filed.under_add, herrors]
  warningsAt := h.warningsAt
  halts l := by
    cases proceed with
    | true => exact h.halts l
    | false =>
      show ((x.halts ++ [(loc, e.code)]).filter _) = (y.halts ++ [(loc, e.code)]).filter _
      rw [List.filter_append, List.filter_append, h.halts l]

/-- The same is halted. -/
theorem SameEverywhere.canProceedAt (h : x.SameEverywhere y) (loc : Location) :
    x.canProceedAt loc = y.canProceedAt loc := by
  -- a mark is among those at its own place
  have hmem : ∀ halt, halt ∈ x.halts ↔ halt ∈ y.halts := by
    intro halt
    have hhalts := congrArg (halt ∈ ·) (h.halts halt.1)
    simpa using hhalts
  rw [Bool.eq_iff_iff]
  simp only [Issues.canProceedAt, List.all_eq_true, hmem]

end Issues

end Scim
