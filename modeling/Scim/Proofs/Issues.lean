import Scim.Issues.Basic

/-!
  # Checks that add to what others have found

  A check gets the issues found so far and adds its own.  It may look at what is there and leave out
  what an earlier error halts, so two things are to be shown of it: that nothing is left out while
  no error was found, and that what it adds is an error just where something is wrong.

    * `Earnest`: nothing halts without an error;
    * `Reports check fine`: the check keeps the issues earnest, keeps the errors found before, and
      adds one unless `fine`.

  Checks made one after the other (`Reports.comp`, `Reports.foldl`) report what any of them does, and
  a check that waits for the go-ahead (`Reports.unlessHalted`) reports what it does without: where
  something halts, there is an error already.
-/

namespace Scim

/-! ## Errors -/

namespace Filed

variable {α : Type}

/-- What was added is there. -/
theorem add_ne_nil (f : Filed α) (loc : Location) (items : List α) : f.add loc items ≠ [] := by
  cases f with
  | nil => simp [add]
  | cons entry rest =>
    unfold add
    split <;> simp

/-- A merge is empty if both parts are. -/
theorem merge_eq_nil_iff (f other : Filed α) (below : Location) :
    f.merge other below = [] ↔ f = [] ∧ other = [] := by
  unfold merge
  induction other generalizing f with
  | nil => simp
  | cons entry rest ih =>
    rw [List.foldl_cons, ih]
    simp [add_ne_nil]

end Filed

namespace Issues

@[simp]
theorem hasErrors_empty : empty.hasErrors = false := rfl

/-- After an error was added there are errors. -/
@[simp]
theorem hasErrors_addError (x : Issues) (e : Error) (proceed : Bool) (loc : Location) :
    (x.addError e proceed loc).hasErrors = true := by
  have h := Filed.add_ne_nil x.errors loc [e]
  cases hadd : x.errors.add loc [e] with
  | nil => exact absurd hadd h
  | cons entry rest => simp [hasErrors, addError, hadd]

@[simp]
theorem hasErrors_fatal (e : Error) (loc : Location) : (fatal e loc).hasErrors = true :=
  hasErrors_addError empty e false loc

@[simp]
theorem hasErrors_mild (e : Error) (loc : Location) : (mild e loc).hasErrors = true :=
  hasErrors_addError empty e true loc

@[simp]
theorem hasErrors_addWarning (x : Issues) (w : Warning) (loc : Location) :
    (x.addWarning w loc).hasErrors = x.hasErrors := rfl

theorem hasErrors_eq_false_iff {x : Issues} : x.hasErrors = false ↔ x.errors = [] := by
  simp [hasErrors]

/-- Collections put together have the errors of both. -/
theorem hasErrors_merge_eq_false_iff {x y : Issues} {below : Location} :
    (x.merge y below).hasErrors = false ↔ x.hasErrors = false ∧ y.hasErrors = false := by
  simp only [hasErrors_eq_false_iff, merge]
  exact Filed.merge_eq_nil_iff x.errors y.errors below

/-- A merge has errors if one of the parts has. -/
theorem hasErrors_merge (x y : Issues) (below : Location) :
    (x.merge y below).hasErrors = (x.hasErrors || y.hasErrors) := by
  rw [← Bool.not_inj_iff, Bool.eq_iff_iff]
  simpa using hasErrors_merge_eq_false_iff

/-- A round of merges has the errors of all that was merged. -/
theorem hasErrors_foldl_merge {α : Type} (list : List α) (found : α → Issues)
    (place : α → Location) (x : Issues) :
    (list.foldl (fun issues a => issues.merge (found a) (place a)) x).hasErrors = false ↔
      x.hasErrors = false ∧ ∀ a ∈ list, (found a).hasErrors = false := by
  induction list generalizing x with
  | nil => simp
  | cons a rest ih =>
    rw [List.foldl_cons, ih, hasErrors_merge_eq_false_iff, List.forall_mem_cons, and_assoc]

/-- Errors added at the root one after the other are filed in one list, and all of them halt. -/
theorem foldl_addError_root (es old : List Error) (warnings : Filed Warning)
    (halts : List (Location × Nat)) :
    es.foldl (fun (issues : Issues) e => issues.addError e false .root)
        ⟨[(.root, old)], warnings, halts⟩ =
      ⟨[(.root, old ++ es)], warnings, halts ++ es.map fun e => (.root, e.code)⟩ := by
  induction es generalizing old halts with
  | nil => simp
  | cons e es ih =>
    have hadd : addError ⟨[(.root, old)], warnings, halts⟩ e false .root =
        ⟨[(.root, old ++ [e])], warnings, halts ++ [(.root, e.code)]⟩ := by
      simp [addError, Filed.add]
    rw [List.foldl_cons, hadd, ih]
    simp

/-- Errors that are collected are all filed at the root. -/
theorem ofErrors_of_ne_nil {es : List Error} (h : es ≠ []) :
    ofErrors es = ⟨[(.root, es)], [], es.map fun e => (.root, e.code)⟩ := by
  cases es with
  | nil => exact absurd rfl h
  | cons e es => exact foldl_addError_root es [e] [] [(.root, e.code)]

/-- Errors that are collected are there. -/
theorem hasErrors_ofErrors_eq_false_iff {errors : List Error} :
    (ofErrors errors).hasErrors = false ↔ errors = [] := by
  cases errors with
  | nil => exact iff_of_true rfl rfl
  | cons e es =>
    rw [ofErrors_of_ne_nil (List.cons_ne_nil e es)]
    simp [hasErrors]

/-! ## Refusals -/

/-- There are errors, all of a sort, and every one of them halts at the root. -/
structure Refuses (sort : Error → Prop) (x : Issues) : Prop where
  reason : x.allErrors ≠ []
  sorted : ∀ found ∈ x.allErrors, found.1 = .root ∧ sort found.2
  halting : x.halts = x.allErrors.map fun found => (found.1, found.2.code)

/-- A refusal has errors. -/
theorem Refuses.hasErrors {sort : Error → Prop} {x : Issues} (h : x.Refuses sort) :
    x.hasErrors = true := by
  rw [← Bool.not_eq_false, hasErrors_eq_false_iff]
  intro hnil
  exact h.reason (by rw [allErrors, hnil, Filed.all, List.flatMap_nil])

/-- Errors of a sort that are collected make a refusal, if there are any. -/
theorem refuses_ofErrors {sort : Error → Prop} {es : List Error} (h : es ≠ [])
    (hsort : ∀ e ∈ es, sort e) : (ofErrors es).Refuses sort := by
  have hall : (ofErrors es).allErrors = es.map fun e => (Location.root, e) := by
    simp [ofErrors_of_ne_nil h, allErrors, Filed.all]
  refine ⟨by simpa [hall] using h, ?_, ?_⟩
  · intro found hfound
    rw [hall] at hfound
    obtain ⟨e, he, rfl⟩ := List.mem_map.mp hfound
    exact ⟨rfl, hsort e he⟩
  · rw [hall, ofErrors_of_ne_nil h, List.map_map]
    rfl

/-! ## What is so in every part -/

/-- A property that a collection has just if all that was merged into it has it.  Nothing that is added
    brings it back, and an error that halts does away with it. -/
structure Hereditary (fine : Issues → Prop) : Prop where
  merge_iff : ∀ {x y : Issues} {below : Location}, fine (x.merge y below) ↔ fine x ∧ fine y
  of_addError : ∀ {x : Issues} {e : Error} {proceed : Bool} {loc : Location},
    fine (x.addError e proceed loc) → fine x
  not_fatal : ∀ (e : Error) (loc : Location), ¬fine (fatal e loc)

/-- Being without errors is such a property. -/
theorem hereditary_noErrors : Hereditary fun x => x.hasErrors = false where
  merge_iff := hasErrors_merge_eq_false_iff
  of_addError h := by simp at h
  not_fatal := by simp

@[simp]
theorem canProceed_fatal (e : Error) (loc : Location) : (fatal e loc).canProceed = false := rfl

/-- A merge has the go-ahead if both parts have. -/
theorem canProceed_merge (x y : Issues) (below : Location) :
    (x.merge y below).canProceed = (x.canProceed && y.canProceed) := by
  rw [Bool.eq_iff_iff]
  simp [canProceed, merge]

/-- Being without halts is such a property, too. -/
theorem hereditary_canProceed : Hereditary fun x => x.canProceed = true where
  merge_iff := by simp [canProceed_merge]
  of_addError {x e proceed loc} h := by
    cases proceed with
    | true => exact h
    | false => simp [canProceed, addError] at h
  not_fatal := by simp

/-! ## Nothing halts without an error -/

/-- Where there is no error, nothing halts. -/
def Earnest (x : Issues) : Prop := x.hasErrors = false → x.canProceed = true

/-- Nothing halts where nothing was found. -/
theorem earnest_empty : empty.Earnest := fun _ => rfl

/-- Where there are errors anything may halt. -/
theorem earnest_of_hasErrors {x : Issues} (h : x.hasErrors = true) : x.Earnest := by
  intro hno
  rw [h] at hno
  simp at hno

theorem earnest_fatal (e : Error) (loc : Location) : (fatal e loc).Earnest :=
  earnest_of_hasErrors (hasErrors_fatal e loc)

theorem earnest_mild (e : Error) (loc : Location) : (mild e loc).Earnest :=
  earnest_of_hasErrors (hasErrors_mild e loc)

theorem Earnest.addWarning {x : Issues} (h : x.Earnest) (w : Warning) (loc : Location) :
    (x.addWarning w loc).Earnest := h

/-- A merge of earnest issues is earnest. -/
theorem Earnest.merge {x y : Issues} (hx : x.Earnest) (hy : y.Earnest) (below : Location) :
    (x.merge y below).Earnest := by
  intro h
  have ⟨hex, hey⟩ := hasErrors_merge_eq_false_iff.mp h
  -- without errors in either there are no halts to put together
  have hhx : x.halts = [] := by simpa [canProceed] using hx hex
  have hhy : y.halts = [] := by simpa [canProceed] using hy hey
  simp [canProceed, Issues.merge, hhx, hhy]

/-- Without errors there is a go-ahead everywhere. -/
theorem Earnest.canProceedAt {x : Issues} (h : x.Earnest) (hno : x.hasErrors = false)
    (loc : Location) : x.canProceedAt loc = true := by
  have hhalts : x.halts = [] := by simpa [canProceed] using h hno
  simp [Issues.canProceedAt, hhalts]

/-! ## What a check reports -/

/-- The check adds to earnest issues, drops no error, and adds one unless `fine`. -/
structure Reports (check : Issues → Issues) (fine : Prop) : Prop where
  earnest : ∀ {x : Issues}, x.Earnest → (check x).Earnest
  hasErrors_iff : ∀ {x : Issues}, x.Earnest →
    ((check x).hasErrors = false ↔ x.hasErrors = false ∧ fine)

namespace Reports

variable {check check₁ check₂ : Issues → Issues} {fine fine₁ fine₂ : Prop}

theorem congr (h : Reports check fine₁) (hiff : fine₁ ↔ fine₂) : Reports check fine₂ where
  earnest := h.earnest
  hasErrors_iff hx := by rw [h.hasErrors_iff hx, hiff]

/-- A check that looks at nothing. -/
theorem skip : Reports (fun x => x) True where
  earnest hx := hx
  hasErrors_iff _ := by simp

/-- Merging reports the errors of what is merged. -/
theorem merge {y : Issues} (hy : y.Earnest) (below : Location) :
    Reports (·.merge y below) (y.hasErrors = false) where
  earnest hx := hx.merge hy below
  hasErrors_iff _ := hasErrors_merge_eq_false_iff

theorem addError (e : Error) (proceed : Bool) (loc : Location) :
    Reports (·.addError e proceed loc) False where
  earnest _ := earnest_of_hasErrors (hasErrors_addError ..)
  hasErrors_iff _ := by simp

/-- Two checks in turn report what is wrong with either. -/
theorem comp (h₁ : Reports check₁ fine₁) (h₂ : Reports check₂ fine₂) :
    Reports (fun x => check₂ (check₁ x)) (fine₁ ∧ fine₂) where
  earnest hx := h₂.earnest (h₁.earnest hx)
  hasErrors_iff hx := by rw [h₂.hasErrors_iff (h₁.earnest hx), h₁.hasErrors_iff hx, and_assoc]

/-- A choice that does not depend on what was found. -/
theorem ite {c : Prop} [Decidable c] (h₁ : c → Reports check₁ fine₁) (h₂ : ¬c → Reports check₂ fine₂) :
    Reports (fun x => if c then check₁ x else check₂ x) ((c → fine₁) ∧ (¬c → fine₂)) := by
  by_cases hc : c
  · simpa only [hc, if_true, true_implies, not_true_eq_false, false_implies, and_true] using h₁ hc
  · simpa only [hc, if_false, false_implies, not_false_eq_true, true_implies, true_and] using h₂ hc

/-- Waiting for the go-ahead changes nothing: where something halts there is an error already, and
    where there is none the check is made. -/
theorem unlessHalted (h : Reports check fine) (loc : Location) :
    Reports (·.unlessHalted loc check) fine where
  earnest {x} hx := by
    show (if x.canProceedAt loc then check x else x).Earnest
    split
    · exact h.earnest hx
    · exact hx
  hasErrors_iff {x} hx := by
    show (if x.canProceedAt loc then check x else x).hasErrors = false ↔ _
    split
    · exact h.hasErrors_iff hx
    · rename_i hhalted
      -- a halt means an error, so both sides are false
      have herr : x.hasErrors ≠ false := fun hno => hhalted (hx.canProceedAt hno loc)
      exact ⟨fun hno => absurd hno herr, fun hno => absurd hno.1 herr⟩

/-- A check of each member of a list, in turn, reports what is wrong with any of them. -/
theorem foldl {α : Type} {step : Issues → α → Issues} {good : α → Prop} {list : List α}
    (h : ∀ a ∈ list, Reports (step · a) (good a)) :
    Reports (fun x => list.foldl step x) (∀ a ∈ list, good a) := by
  induction list with
  | nil => simpa using skip
  | cons a rest ih =>
    have hrest := ih fun b hb => h b (List.mem_cons_of_mem a hb)
    -- the first member, and then the others
    refine ((h a List.mem_cons_self).comp hrest).congr ?_
    simp

/-- What a check finds when nothing was found before. -/
theorem on_empty (h : Reports check fine) : (check empty).hasErrors = false ↔ fine := by
  rw [h.hasErrors_iff earnest_empty]
  simp

end Reports

end Issues

end Scim
