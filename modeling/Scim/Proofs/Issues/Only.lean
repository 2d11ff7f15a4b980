import Scim.Proofs.Issues.Filed

/-!
  # Which errors are found

  All errors of a collection are of some sort (`Only`) if all that was ever put into it are.  A check
  that adds to what others have found is followed step by step: it adds errors of the sort only
  (`AddsOnly`), whether it is made once, for each member of a list, or left out where something halts.
-/

namespace Scim

namespace Issues

variable {x y : Issues} {sort sort' : Error → Prop} {check check₁ check₂ : Issues → Issues}

/-- Every error found is of a sort. -/
def Only (sort : Error → Prop) (x : Issues) : Prop :=
  ∀ ⦃l e⦄, (l, e) ∈ x.allErrors → sort e

theorem only_empty : empty.Only sort := fun _ _ h => absurd h List.not_mem_nil

theorem Only.mono (h : x.Only sort) (hsort : ∀ e, sort e → sort' e) : x.Only sort' :=
  fun _ _ hmem => hsort _ (h hmem)

/-- An error of the sort may be added. -/
theorem Only.addError (h : x.Only sort) {e : Error} (he : sort e) (proceed : Bool) (loc : Location) :
    (x.addError e proceed loc).Only sort := by
  intro l e' hmem
  rcases Filed.mem_all_add.mp hmem with hold | ⟨-, hnew⟩
  · exact h hold
  · rwa [List.mem_singleton.mp hnew]

theorem Only.addWarning (h : x.Only sort) (w : Warning) (loc : Location) :
    (x.addWarning w loc).Only sort := h

/-- Collections with such errors may be merged. -/
theorem Only.merge (hx : x.Only sort) (hy : y.Only sort) (below : Location) :
    (x.merge y below).Only sort := by
  intro l e hmem
  -- an error was there before or comes from below, at another place but of the same sort
  rcases Filed.mem_all_merge.mp hmem with hold | ⟨m, -, hmoved⟩
  · exact hx hold
  · exact hy hmoved

theorem only_fatal {e : Error} (he : sort e) (loc : Location) : (fatal e loc).Only sort :=
  only_empty.addError he false loc

theorem only_mild {e : Error} (he : sort e) (loc : Location) : (mild e loc).Only sort :=
  only_empty.addError he true loc

/-! ## What a check adds -/

/-- The check adds errors of a sort only. -/
def AddsOnly (sort : Error → Prop) (check : Issues → Issues) : Prop :=
  ∀ ⦃x : Issues⦄, x.Only sort → (check x).Only sort

namespace AddsOnly

theorem skip : AddsOnly sort fun x => x := fun _ h => h

theorem addError {e : Error} (he : sort e) (proceed : Bool) (loc : Location) :
    AddsOnly sort (·.addError e proceed loc) := fun _ h => h.addError he proceed loc

theorem merge (hy : y.Only sort) (below : Location) : AddsOnly sort (·.merge y below) :=
  fun _ h => h.merge hy below

/-- Checks made in turn add errors of the sort only, if each does. -/
theorem comp (h₁ : AddsOnly sort check₁) (h₂ : AddsOnly sort check₂) :
    AddsOnly sort fun x => check₂ (check₁ x) := fun _ h => h₂ (h₁ h)

theorem ite {c : Prop} [Decidable c] (h₁ : c → AddsOnly sort check₁) (h₂ : ¬c → AddsOnly sort check₂) :
    AddsOnly sort fun x => if c then check₁ x else check₂ x := by
  intro x hx
  by_cases hc : c
  · simpa only [hc, if_true] using h₁ hc hx
  · simpa only [hc, if_false] using h₂ hc hx

/-- A check that waits for the go-ahead adds no other errors than it would. -/
theorem unlessHalted (h : AddsOnly sort check) (loc : Location) :
    AddsOnly sort (·.unlessHalted loc check) := by
  intro x hx
  show (if x.canProceedAt loc then check x else x).Only sort
  split
  · exact h hx
  · exact hx

/-- Checks of the members of a list in turn add errors of the sort only. -/
theorem foldl {α : Type} {step : Issues → α → Issues} {list : List α}
    (h : ∀ a ∈ list, AddsOnly sort (step · a)) : AddsOnly sort fun x => list.foldl step x := by
  induction list with
  | nil => exact skip
  | cons a rest ih =>
    have hrest := ih fun b hb => h b (List.mem_cons_of_mem a hb)
    exact comp (h a List.mem_cons_self) hrest

end AddsOnly

end Issues

end Scim
