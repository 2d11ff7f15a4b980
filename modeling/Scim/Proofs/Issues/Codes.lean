import Scim.Proofs.Issues.Filed

/-!
  # The same issues in other words

  A client goes by the codes of issues, and by where they lie.  Two collections are the same to it if
  equal codes are filed under equal places, and the same marks halt (`Issues.SameCodes`).

  A check looks at nothing of what others have found but at what halts.  So two checks that add the same
  codes can be followed side by side (`Issues.SameEffect`): whatever was the same before is the same
  afterwards, whether a step is made once, for each member of a list, or left out where something halts.
-/

namespace Scim

/-! ## Items replaced -/

namespace Filed

variable {α β : Type}

/-- The same places with other items, each made from the item that was there. -/
def mapItems (g : α → β) (f : Filed α) : Filed β := List.map (fun (l, items) => (l, items.map g)) f

/-- Adding items and replacing them may be done in either order. -/
theorem mapItems_add (g : α → β) (f : Filed α) (loc : Location) (items : List α) :
    (f.add loc items).mapItems g = (f.mapItems g).add loc (items.map g) := by
  induction f with
  | nil => rfl
  | cons entry f ih =>
    obtain ⟨l, old⟩ := entry
    -- the items join an entry of the place, or go on to the entries behind
    by_cases hl : l = loc
    · simp [add, mapItems, hl]
    · simpa [add, mapItems, hl] using ih

/-- So may merging and replacing. -/
theorem mapItems_merge (g : α → β) (f other : Filed α) (below : Location) :
    (f.merge other below).mapItems g = (f.mapItems g).merge (other.mapItems g) below := by
  unfold merge
  -- one entry after the other is added to what is merged so far
  induction other generalizing f with
  | nil => rfl
  | cons entry other ih =>
    rw [List.foldl_cons, ih, mapItems_add]
    rfl

end Filed

namespace Issues

variable {x y x' y' : Issues}

/-! ## Collections with the same codes -/

/-- Equal codes of errors and of warnings lie at equal places in equal order, and the same halts. -/
structure SameCodes (x y : Issues) : Prop where
  errors : x.errors.mapItems Error.code = y.errors.mapItems Error.code
  warnings : x.warnings.mapItems Warning.code = y.warnings.mapItems Warning.code
  halts : x.halts = y.halts

namespace SameCodes

theorem refl (x : Issues) : x.SameCodes x := ⟨rfl, rfl, rfl⟩

theorem of_eq (h : x = y) : x.SameCodes y := h ▸ refl x

/-- An error that is added brings its code. -/
theorem addError (h : x.SameCodes y) {e e' : Error} (hcode : e.code = e'.code) (proceed : Bool)
    (loc : Location) : (x.addError e proceed loc).SameCodes (y.addError e' proceed loc) where
  errors := by
    show (x.errors.add loc [e]).mapItems _ = (y.errors.add loc [e']).mapItems _
    rw [Filed.mapItems_add, Filed.mapItems_add, h.errors, List.map_singleton, List.map_singleton,
      hcode]
  warnings := h.warnings
  halts := by
    show (if proceed then x.halts else x.halts ++ [(loc, e.code)]) =
      if proceed then y.halts else y.halts ++ [(loc, e'.code)]
    rw [h.halts, hcode]

theorem merge (h : x.SameCodes y) (h' : x'.SameCodes y') (below : Location) :
    (x.merge x' below).SameCodes (y.merge y' below) where
  errors := by
    show (x.errors.merge x'.errors below).mapItems _ = (y.errors.merge y'.errors below).mapItems _
    rw [Filed.mapItems_merge, Filed.mapItems_merge, h.errors, h'.errors]
  warnings := by
    show (x.warnings.merge x'.warnings below).mapItems _ =
      (y.warnings.merge y'.warnings below).mapItems _
    rw [Filed.mapItems_merge, Filed.mapItems_merge, h.warnings, h'.warnings]
  halts := by
    show x.halts ++ x'.halts.map _ = y.halts ++ y'.halts.map _
    rw [h.halts, h'.halts]

theorem fatal {e e' : Error} (hcode : e.code = e'.code) (loc : Location) :
    (fatal e loc).SameCodes (Issues.fatal e' loc) := (refl empty).addError hcode false loc

/-- The same has a go-ahead. -/
theorem canProceedAt_eq (h : x.SameCodes y) (loc : Location) :
    x.canProceedAt loc = y.canProceedAt loc := by
  unfold canProceedAt
  rw [h.halts]

end SameCodes

/-! ## Checks side by side -/

/-- The two checks add the same codes. -/
def SameEffect (check check' : Issues → Issues) : Prop :=
  ∀ ⦃x y : Issues⦄, x.SameCodes y → (check x).SameCodes (check' y)

namespace SameEffect

variable {check check' check₁ check₁' check₂ check₂' : Issues → Issues}

theorem skip : SameEffect (fun x => x) fun x => x := fun _ _ h => h

theorem addError {e e' : Error} (hcode : e.code = e'.code) (proceed : Bool) (loc : Location) :
    SameEffect (·.addError e proceed loc) (·.addError e' proceed loc) :=
  fun _ _ h => h.addError hcode proceed loc

theorem merge (h : x.SameCodes y) (below : Location) :
    SameEffect (·.merge x below) (·.merge y below) := fun _ _ hfound => hfound.merge h below

/-- Checks made in turn, side by side. -/
theorem comp (h₁ : SameEffect check₁ check₁') (h₂ : SameEffect check₂ check₂') :
    SameEffect (fun x => check₂ (check₁ x)) fun x => check₂' (check₁' x) := fun _ _ h => h₂ (h₁ h)

/-- A choice that does not depend on what was found is the same on both sides. -/
theorem ite {c : Prop} [Decidable c] (h₁ : c → SameEffect check₁ check₁')
    (h₂ : ¬c → SameEffect check₂ check₂') :
    SameEffect (fun x => if c then check₁ x else check₂ x)
      fun x => if c then check₁' x else check₂' x := by
  intro x y h
  by_cases hc : c
  · simpa only [hc, if_true] using h₁ hc h
  · simpa only [hc, if_false] using h₂ hc h

/-- A check is left out on both sides or on neither, since the same halts. -/
theorem unlessHalted (h : SameEffect check check') (loc : Location) :
    SameEffect (·.unlessHalted loc check) (·.unlessHalted loc check') := by
  intro x y hxy
  show (if x.canProceedAt loc then check x else x).SameCodes
    (if y.canProceedAt loc then check' y else y)
  rw [hxy.canProceedAt_eq]
  split
  · exact h hxy
  · exact hxy

/-- Checks of the members of a list in turn, side by side. -/
theorem foldl {α : Type} {step step' : Issues → α → Issues} {list : List α}
    (h : ∀ a ∈ list, SameEffect (step · a) (step' · a)) :
    SameEffect (fun x => list.foldl step x) fun x => list.foldl step' x := by
  -- what the first member leaves is the same on both sides, and so the rest is
  induction list with
  | nil => exact skip
  | cons a rest ih =>
    have hrest := ih fun b hb => h b (List.mem_cons_of_mem a hb)
    exact comp (h a List.mem_cons_self) hrest

end SameEffect

end Issues

end Scim
