import Scim.Proofs.Issues.Within

/-!
  # Checks that keep to one place

  Many checks file their issues into one collection, one after the other, and each looks at what was
  filed before it to see what is halted.  None gets in the way of another as long as each keeps to a
  place of its own: `Confined loc check` says that the check files at or below `loc` only, and reads
  nothing but what lies there, unless something lies above it.

  The crux is `within_foldl_of_mem`.  Of checks at places apart from each other, made in turn, one
  finds at its place just what it would have found alone: those before it have filed nothing above
  its place, so nothing they found can halt it, and those after it file nothing at or below it.
-/

namespace Scim

open Location (Apart)

namespace Issues

variable {x y : Issues} {loc l other below : Location}

/-! ## What halts -/

/-- Nothing is filed or halts above a place. -/
def OpenAbove (x : Issues) (loc : Location) : Prop := ∀ l ∈ x.places, l <+: loc → l = loc

theorem openAbove_empty (loc : Location) : empty.OpenAbove loc := by simp [OpenAbove]

/-- What halts at or below a place lies there too, if nothing lies above it. -/
theorem canProceedAt_within (hopen : x.OpenAbove loc) (h : loc <+: l) :
    (x.within loc).canProceedAt l = x.canProceedAt l := by
  rw [Bool.eq_iff_iff]
  simp only [canProceedAt, within, List.all_eq_true, List.mem_filter, and_imp]
  refine ⟨fun hall entry hentry => ?_, fun hall entry hentry _ => hall entry hentry⟩
  obtain ⟨m, code⟩ := entry
  by_cases hm : Location.startsWith m loc = true
  · exact hall (m, code) hentry hm
  · -- a halt at the place or above it would lie above `loc`
    have hnot : ¬m <+: l := by
      intro hml
      have hloc : ¬loc <+: m := fun hloc => hm (Location.startsWith_iff.mpr hloc)
      have habove := (List.prefix_or_prefix_of_prefix h hml).resolve_left hloc
      have hplace : m ∈ x.places := by
        rw [mem_places]
        exact .inr (.inr (List.mem_map.mpr ⟨_, hentry, rfl⟩))
      exact hloc (hopen m hplace habove ▸ List.prefix_rfl)
    simp [Location.startsWith_eq_false hnot]

/-! ## Checks at a place -/

/-- The check files at or below a place only, and reads nothing but what lies there. -/
structure Confined (loc : Location) (check : Issues → Issues) : Prop where
  inside : ∀ {x : Issues}, x.OpenAbove loc → (check x).within loc = check (x.within loc)
  outside : ∀ (x : Issues) {other}, Apart loc other → (check x).within other = x.within other
  places : ∀ {x : Issues} {l}, l ∈ (check x).places → l ∈ x.places ∨ loc <+: l

namespace Confined

variable {check check₁ check₂ : Issues → Issues}

/-- Nothing is filed above the place. -/
theorem openAbove (h : Confined loc check) (hopen : x.OpenAbove loc) : (check x).OpenAbove loc := by
  intro l hl habove
  rcases h.places hl with hold | hnew
  · exact hopen l hold habove
  · exact habove.eq_of_length_le hnew.length_le

/-- A check that does nothing keeps to any place. -/
theorem skip (loc : Location) : Confined loc fun x => x where
  inside _ := rfl
  outside _ _ _ := rfl
  places := .inl

/-- Merging at or below a place keeps to it. -/
theorem merge (y : Issues) (h : loc <+: below) : Confined loc (·.merge y below) where
  inside _ := within_merge_of_below h
  outside _ _ hother := within_merge_of_apart (hother.below h)
  places hl := (mem_places_merge.mp hl).imp_right fun ⟨m, _, hm⟩ => by
    rw [hm]
    exact h.trans (List.prefix_append below m)

/-- An error at or below a place keeps to it. -/
theorem addError (e : Error) (proceed : Bool) (h : loc <+: l) :
    Confined loc (·.addError e proceed l) where
  inside _ := within_addError_of_below h e proceed
  outside _ _ hother := within_addError_of_apart (hother.below h) e proceed
  places hl := (mem_places_addError hl).imp_right fun hm => by rwa [hm]

/-- Checks in turn that keep to one place keep to it together. -/
theorem comp (h₁ : Confined loc check₁) (h₂ : Confined loc check₂) :
    Confined loc fun x => check₂ (check₁ x) where
  -- nothing was filed above the place by the first check, so the second looks at the same
  inside hopen := by rw [h₂.inside (h₁.openAbove hopen), h₁.inside hopen]
  outside x _ hother := by rw [h₂.outside _ hother, h₁.outside x hother]
  places hl := (h₂.places hl).elim h₁.places .inr

theorem ite {c : Prop} [Decidable c] (h₁ : c → Confined loc check₁) (h₂ : ¬c → Confined loc check₂) :
    Confined loc fun x => if c then check₁ x else check₂ x := by
  by_cases hc : c
  · simpa only [hc, if_true] using h₁ hc
  · simpa only [hc, if_false] using h₂ hc

/-- Waiting for the go-ahead at the place or below it reads nothing but what lies there. -/
theorem unlessHalted (h : Confined loc check) (hl : loc <+: l) :
    Confined loc (·.unlessHalted l check) where
  inside {x} hopen := by
    simp only [Issues.unlessHalted, canProceedAt_within hopen hl]
    split
    · exact h.inside hopen
    · rfl
  outside x _ hother := by
    simp only [Issues.unlessHalted]
    split
    · exact h.outside x hother
    · rfl
  places {x} _ hplace := by
    simp only [Issues.unlessHalted] at hplace
    split at hplace
    · exact h.places hplace
    · exact .inl hplace

theorem foldl {α : Type} {step : Issues → α → Issues} {list : List α}
    (h : ∀ a ∈ list, Confined loc (step · a)) : Confined loc fun x => list.foldl step x := by
  induction list with
  | nil => exact skip loc
  | cons a rest ih =>
    have hrest := ih fun b hb => h b (List.mem_cons_of_mem a hb)
    exact comp (h a List.mem_cons_self) hrest

end Confined

/-! ## Checks at many places -/

section Rounds

variable {α : Type} {step : Issues → α → Issues} {place : α → Location} {list : List α}

/-- Checks in turn file at or below their places. -/
theorem mem_places_foldl (place : α → Location) (h : ∀ a ∈ list, Confined (place a) (step · a))
    (hl : l ∈ (list.foldl step x).places) : l ∈ x.places ∨ ∃ a ∈ list, place a <+: l := by
  induction list generalizing x with
  | nil => exact .inl hl
  | cons a rest ih =>
    rcases ih (fun b hb => h b (List.mem_cons_of_mem a hb)) hl with hold | ⟨b, hb, hbelow⟩
    · exact ((h a List.mem_cons_self).places hold).imp_right fun hbelow =>
        ⟨a, List.mem_cons_self, hbelow⟩
    · exact .inr ⟨b, List.mem_cons_of_mem a hb, hbelow⟩

/-- Checks in turn leave alone what is apart from their places. -/
theorem within_foldl_of_apart (place : α → Location)
    (h : ∀ a ∈ list, Confined (place a) (step · a)) (hapart : ∀ a ∈ list, Apart (place a) other) :
    (list.foldl step x).within other = x.within other := by
  induction list generalizing x with
  | nil => rfl
  | cons a rest ih =>
    rw [List.foldl_cons, ih (fun b hb => h b (List.mem_cons_of_mem a hb))
        (fun b hb => hapart b (List.mem_cons_of_mem a hb)),
      (h a List.mem_cons_self).outside x (hapart a List.mem_cons_self)]

/-- Of checks in turn, at places apart from each other, each finds what it would find alone. -/
theorem within_foldl_of_mem (place : α → Location)
    (h : ∀ a ∈ list, Confined (place a) (step · a))
    (hapart : list.Pairwise fun a b => Apart (place a) (place b)) {a : α} (ha : a ∈ list)
    (hopen : x.OpenAbove (place a)) :
    (list.foldl step x).within (place a) = step (x.within (place a)) a := by
  obtain ⟨before, after, rfl⟩ := List.append_of_mem ha
  obtain ⟨-, hafter, hbefore⟩ := List.pairwise_append.mp hapart
  have hb : ∀ b ∈ before, Confined (place b) (step · b) := fun b hb =>
    h b (List.mem_append_left _ hb)
  have hbapart : ∀ b ∈ before, Apart (place b) (place a) := fun b hb =>
    hbefore b hb a List.mem_cons_self
  -- those before have filed below their own places, which are not above this one
  have hclear : (before.foldl step x).OpenAbove (place a) := by
    intro l hl habove
    rcases mem_places_foldl place hb hl with hold | ⟨b, hmem, hbelow⟩
    · exact hopen l hold habove
    · exact absurd (hbelow.trans habove) (hbapart b hmem).1
  rw [List.foldl_append, List.foldl_cons,
    within_foldl_of_apart place
      (fun b hb => h b (List.mem_append_right _ (List.mem_cons_of_mem a hb)))
      (fun b hb => ((List.pairwise_cons.mp hafter).1 b hb).symm),
    (h a ha).inside hclear, within_foldl_of_apart place hb hbapart]

end Rounds

end Issues

end Scim
