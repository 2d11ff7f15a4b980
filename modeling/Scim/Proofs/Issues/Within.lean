import Scim.Proofs.Issues.Filed

/-!
  # What lies at or below a place

  A part of a collection can be looked at in two ways: as it lies there (`Issues.within`), or as it
  is seen from the place (`Issues.relativeTo`), which is what picking out at the place shows
  (`select_relativeTo`).

  What is merged at or below the place is found there (`within_merge_of_below`), and what is merged
  at a place apart from it is not (`within_merge_of_apart`).
-/

namespace Scim

/-! ## Places apart -/

namespace Location

/-- Neither place lies at or below the other. -/
def Apart (l m : Location) : Prop := ¬l <+: m ∧ ¬m <+: l

theorem Apart.symm {l m : Location} (h : Apart l m) : Apart m l := ⟨h.2, h.1⟩

/-- What lies at or below one of two places apart is apart from the other. -/
theorem Apart.below {l l' m : Location} (h : Apart l m) (hl : l <+: l') : Apart l' m :=
  ⟨fun hm => h.1 (hl.trans hm), fun hm =>
    (List.prefix_or_prefix_of_prefix hl hm).elim h.1 h.2⟩

/-- Two different steps lead to places apart. -/
theorem apart_singleton {s t : Step} (h : s ≠ t) : Apart [s] [t] := by
  simp [Apart, List.prefix_cons_iff, h, Ne.symm h]

/-- A place does not start with one that does not lie above it. -/
theorem startsWith_eq_false {l above : Location} (h : ¬above <+: l) : startsWith l above = false :=
  Bool.eq_false_iff.mpr fun hl => h (startsWith_iff.mp hl)

end Location

open Location (Apart)

/-! ## What lies at or below a place -/

namespace Filed

variable {α : Type} {f other : Filed α} {loc l below : Location}

/-- The entries at or below a place. -/
def within (f : Filed α) (loc : Location) : Filed α :=
  f.filter fun (l, _) => Location.startsWith l loc

/-- What is added at or below a place is found there. -/
theorem within_add_of_below (h : loc <+: l) (items : List α) :
    (f.add l items).within loc = (f.within loc).add l items := by
  have hl := Location.startsWith_iff.mpr h
  induction f with
  | nil => simp [add, within, hl]
  | cons entry f ih =>
    obtain ⟨m, old⟩ := entry
    simp only [within] at ih
    by_cases hm : m = l
    · simp [add, within, hm, hl]
    · by_cases hin : Location.startsWith m loc = true
      · simp [add, within, hm, hin, ih]
      · simp [add, within, hm, hin, ih]

/-- What is added elsewhere is not. -/
theorem within_add_of_not_below (h : ¬loc <+: l) (items : List α) :
    (f.add l items).within loc = f.within loc := by
  have hl := Location.startsWith_eq_false h
  induction f with
  | nil => simp [add, within, hl]
  | cons entry f ih =>
    obtain ⟨m, old⟩ := entry
    simp only [within] at ih
    by_cases hm : m = l
    · simp [add, within, hm, hl]
    · simp [add, within, hm, List.filter_cons, ih]

/-- What is merged at or below a place is found there, entry by entry. -/
theorem within_merge_of_below (h : loc <+: below) :
    (f.merge other below).within loc = (f.within loc).merge other below := by
  unfold merge
  induction other generalizing f with
  | nil => rfl
  | cons entry other ih =>
    rw [List.foldl_cons, List.foldl_cons, ih,
      within_add_of_below (h.trans (List.prefix_append below entry.1))]

/-- What is merged apart from a place is not. -/
theorem within_merge_of_apart (h : Apart below loc) :
    (f.merge other below).within loc = f.within loc := by
  unfold merge
  induction other generalizing f with
  | nil => rfl
  | cons entry other ih =>
    rw [List.foldl_cons, ih,
      within_add_of_not_below (h.below (List.prefix_append below entry.1)).2]

/-- A merge has the places of both, those of the second moved below. -/
theorem mem_places_merge :
    l ∈ (f.merge other below).map (·.1) ↔
      l ∈ f.map (·.1) ∨ ∃ m ∈ other.map (·.1), l = below ++ m := by
  unfold merge
  induction other generalizing f with
  | nil => simp
  | cons entry other ih =>
    rw [List.foldl_cons, ih, mem_places_add]
    simp [or_assoc]

end Filed

namespace Issues

variable {x y : Issues} {loc l other below : Location}

/-- What is found at or below a place. -/
def within (x : Issues) (loc : Location) : Issues :=
  ⟨x.errors.within loc, x.warnings.within loc,
    x.halts.filter fun (l, _) => Location.startsWith l loc⟩

/-- The places where something is filed or halts. -/
def places (x : Issues) : List Location :=
  x.errors.map (·.1) ++ x.warnings.map (·.1) ++ x.halts.map (·.1)

@[simp]
theorem within_empty (loc : Location) : empty.within loc = empty := rfl

@[simp]
theorem places_empty : empty.places = [] := rfl

theorem merge_empty (x : Issues) (loc : Location) : x.merge empty loc = x := by
  show Issues.mk x.errors x.warnings (x.halts ++ []) = x
  rw [List.append_nil]

theorem mem_places : l ∈ x.places ↔
    l ∈ x.errors.map (·.1) ∨ l ∈ x.warnings.map (·.1) ∨ l ∈ x.halts.map (·.1) := by
  simp [places]

/-- Nothing is found where no place lies. -/
theorem within_eq_empty (h : ∀ l ∈ x.places, ¬loc <+: l) : x.within loc = empty := by
  have hno : ∀ l ∈ x.places, Location.startsWith l loc = false := fun l hl =>
    Location.startsWith_eq_false (h l hl)
  simp only [mem_places] at hno
  have herrors : x.errors.within loc = [] := List.filter_eq_nil_iff.mpr fun entry hentry => by
    simp [hno entry.1 (.inl (List.mem_map_of_mem hentry))]
  have hwarnings : x.warnings.within loc = [] := List.filter_eq_nil_iff.mpr fun entry hentry => by
    simp [hno entry.1 (.inr (.inl (List.mem_map_of_mem hentry)))]
  rw [within, herrors, hwarnings, empty, List.filter_eq_nil_iff.mpr]
  intro entry hentry
  simp [hno entry.1 (.inr (.inr (List.mem_map_of_mem hentry)))]

/-- Errors, warnings and marks merged at or below a place are found there. -/
theorem within_merge_of_below (h : loc <+: below) :
    (x.merge y below).within loc = (x.within loc).merge y below := by
  -- the marks that are merged all lie at or below the place
  have hhalts : (y.halts.map fun (l, code) => (below ++ l, code)).filter
      (fun (l, _) => Location.startsWith l loc) =
      y.halts.map fun (l, code) => (below ++ l, code) := by
    refine List.filter_eq_self.mpr fun entry hentry => ?_
    obtain ⟨⟨m, code⟩, -, rfl⟩ := List.mem_map.mp hentry
    exact Location.startsWith_iff.mpr (h.trans (List.prefix_append below m))
  simp only [within, merge, Filed.within_merge_of_below h, List.filter_append, hhalts]

/-- And those merged apart from it are not. -/
theorem within_merge_of_apart (h : Apart below loc) :
    (x.merge y below).within loc = x.within loc := by
  -- the marks that are merged all lie apart from it
  have hhalts : (y.halts.map fun (l, code) => (below ++ l, code)).filter
      (fun (l, _) => Location.startsWith l loc) = [] := by
    refine List.filter_eq_nil_iff.mpr fun entry hentry => ?_
    obtain ⟨⟨m, code⟩, -, rfl⟩ := List.mem_map.mp hentry
    simp [Location.startsWith_eq_false (h.below (List.prefix_append below m)).2]
  simp only [within, merge, Filed.within_merge_of_apart h, List.filter_append, hhalts,
    List.append_nil]

/-- An error at or below a place is found there. -/
theorem within_addError_of_below (h : loc <+: l) (e : Error) (proceed : Bool) :
    (x.addError e proceed l).within loc = (x.within loc).addError e proceed l := by
  have hl := Location.startsWith_iff.mpr h
  cases proceed <;> simp [within, addError, Filed.within_add_of_below h, hl]

/-- An error apart from it is not. -/
theorem within_addError_of_apart (h : Apart l loc) (e : Error) (proceed : Bool) :
    (x.addError e proceed l).within loc = x.within loc := by
  have hl := Location.startsWith_eq_false h.2
  cases proceed <;> simp [within, addError, Filed.within_add_of_not_below h.2, hl]

/-- The places of a merged collection. -/
theorem mem_places_merge :
    l ∈ (x.merge y below).places ↔ l ∈ x.places ∨ ∃ m ∈ y.places, l = below ++ m := by
  simp only [mem_places, merge, Filed.mem_places_merge, List.map_append, List.mem_append,
    List.map_map]
  have hhalts : l ∈ y.halts.map ((·.1) ∘ fun (l, code) => (below ++ l, code)) ↔
      ∃ m ∈ y.halts.map (·.1), l = below ++ m := by
    simp [eq_comm]
  rw [hhalts]
  grind

/-- An error adds one place at most. -/
theorem mem_places_addError {e : Error} {proceed : Bool}
    (h : other ∈ (x.addError e proceed l).places) :
    other ∈ x.places ∨ other = l := by
  rw [mem_places] at h ⊢
  cases proceed <;> simp only [addError, Filed.mem_places_add] at h <;> grind

theorem mem_places_fatal {e : Error} (h : l ∈ (fatal e loc).places) : l = loc :=
  (mem_places_addError h).resolve_left (by simp)

/-! ## What is seen from a place -/

end Issues

namespace Filed

variable {α : Type} {f other : Filed α} {loc l : Location}

/-- The entries at or below a place, at their way from there. -/
def relativeTo (f : Filed α) (loc : Location) : Filed α :=
  f.filterMap fun (l, items) => (Location.relativeTo? l loc).map fun m => (m, items)

/-- An entry at or below the place is seen at its way from there. -/
theorem relativeTo_cons_append (m : Location) (items : List α) :
    relativeTo ((loc ++ m, items) :: f) loc = (m, items) :: f.relativeTo loc := by
  simp [relativeTo]

theorem relativeTo_cons_of_not_below (h : ¬loc <+: l) (items : List α) :
    relativeTo ((l, items) :: f) loc = f.relativeTo loc := by
  simp [relativeTo, Location.relativeTo?_eq_none (Location.startsWith_eq_false h)]

/-- What is added at or below the place is seen at its way from there. -/
theorem relativeTo_add_append (f : Filed α) (loc m : Location) (items : List α) :
    (f.add (loc ++ m) items).relativeTo loc = (f.relativeTo loc).add m items := by
  induction f with
  | nil => simp [add, relativeTo]
  | cons entry f ih =>
    obtain ⟨l, old⟩ := entry
    by_cases hl : loc <+: l
    · obtain ⟨n, rfl⟩ := hl
      rw [relativeTo_cons_append]
      by_cases hn : n = m
      · subst hn
        simp [add, relativeTo_cons_append]
      · simp [add, hn, relativeTo_cons_append, ih]
    · -- the entry lies elsewhere, so it is not the one that is added to
      have hne : l ≠ loc ++ m := by
        rintro rfl
        exact hl (List.prefix_append loc m)
      simp [add, hne, relativeTo_cons_of_not_below hl, ih]

/-- What is added elsewhere is not seen. -/
theorem relativeTo_add_of_not_below (h : ¬loc <+: l) (items : List α) :
    (f.add l items).relativeTo loc = f.relativeTo loc := by
  induction f with
  | nil => simp [add, relativeTo_cons_of_not_below h]
  | cons entry f ih =>
    obtain ⟨m, old⟩ := entry
    by_cases hm : m = l
    · simp [add, hm, relativeTo_cons_of_not_below h]
    · by_cases hin : loc <+: m
      · obtain ⟨n, rfl⟩ := hin
        simp [add, hm, relativeTo_cons_append, ih]
      · simp [add, hm, relativeTo_cons_of_not_below hin, ih]

/-- What is merged at the place is seen as it was. -/
theorem relativeTo_merge (f other : Filed α) (loc : Location) :
    (f.merge other loc).relativeTo loc = (f.relativeTo loc).merge other .root := by
  unfold merge
  induction other generalizing f with
  | nil => rfl
  | cons entry other ih =>
    rw [List.foldl_cons, List.foldl_cons, ih, relativeTo_add_append]
    rfl

/-- From a place, a merge is the merge of what is seen from there. -/
theorem relativeTo_merge_root (f other : Filed α) (loc : Location) :
    (f.merge other .root).relativeTo loc = (f.relativeTo loc).merge (other.relativeTo loc) .root := by
  unfold merge
  induction other generalizing f with
  | nil => rfl
  | cons entry other ih =>
    obtain ⟨l, items⟩ := entry
    simp only [Location.root, List.nil_append] at ih ⊢
    rw [List.foldl_cons, ih]
    -- an entry of the second is seen on both sides or on neither
    by_cases hl : loc <+: l
    · obtain ⟨m, rfl⟩ := hl
      rw [relativeTo_cons_append, List.foldl_cons, relativeTo_add_append]
    · rw [relativeTo_cons_of_not_below hl, relativeTo_add_of_not_below hl]

/-- What lies at a place seen from another lies at the two joined. -/
theorem under_relativeTo (f : Filed α) (loc m : Location) :
    (f.relativeTo loc).under m = f.under (loc ++ m) := by
  induction f with
  | nil => rfl
  | cons entry f ih =>
    obtain ⟨l, items⟩ := entry
    by_cases hl : loc <+: l
    · obtain ⟨n, rfl⟩ := hl
      rw [relativeTo_cons_append]
      by_cases hn : n = m <;> simp [under, hn, ih]
    · have hne : l ≠ loc ++ m := by
        rintro rfl
        exact hl (List.prefix_append loc m)
      simp [under, hne, relativeTo_cons_of_not_below hl, ih]

/-- What lies elsewhere is not seen anyway. -/
theorem relativeTo_within (f : Filed α) (loc : Location) :
    (f.within loc).relativeTo loc = f.relativeTo loc := by
  unfold relativeTo within
  rw [List.filterMap_filter]
  refine List.filterMap_congr fun ⟨l, items⟩ _ => ?_
  cases hl : Location.startsWith l loc with
  | true => simp only [hl, if_true]
  | false => simp [hl, Location.relativeTo?_eq_none hl]

/-- Picking out at a place is picking out of what is seen from there. -/
theorem select_relativeTo (f : Filed α) (test : α → Bool) (loc : Location) :
    (f.relativeTo loc).select test .root = f.select test loc := by
  unfold relativeTo select
  rw [List.filterMap_filterMap]
  refine List.filterMap_congr fun ⟨l, items⟩ _ => ?_
  cases hl : Location.relativeTo? l loc with
  | none => simp [hl]
  | some m => cases m <;> simp [hl, Location.relativeTo?, Location.root]

end Filed

namespace Issues

variable {x y : Issues} {loc l other below : Location}

/-- What is found at or below a place, as it is seen from there. -/
def relativeTo (x : Issues) (loc : Location) : Issues :=
  ⟨x.errors.relativeTo loc, x.warnings.relativeTo loc,
    x.halts.filterMap fun (l, code) => (Location.relativeTo? l loc).map fun m => (m, code)⟩

/-- A collection merged at the place is seen as it was, behind what was there. -/
theorem relativeTo_merge (x y : Issues) (loc : Location) :
    (x.merge y loc).relativeTo loc = (x.relativeTo loc).merge y .root := by
  simp [relativeTo, merge, Filed.relativeTo_merge, List.filterMap_map, Location.root]

theorem relativeTo_merge_root (x y : Issues) (loc : Location) :
    (x.merge y .root).relativeTo loc = (x.relativeTo loc).merge (y.relativeTo loc) .root := by
  simp only [relativeTo, merge, Filed.relativeTo_merge_root, List.filterMap_append]
  simp [Location.root]

theorem relativeTo_within (x : Issues) (loc : Location) :
    (x.within loc).relativeTo loc = x.relativeTo loc := by
  simp only [relativeTo, within, Filed.relativeTo_within, List.filterMap_filter, mk.injEq, true_and]
  refine List.filterMap_congr fun ⟨l, code⟩ _ => ?_
  cases hl : Location.startsWith l loc with
  | true => simp only [if_true]
  | false => simp [Location.relativeTo?_eq_none hl]

/-- A collection merged apart from the place is not seen. -/
theorem relativeTo_merge_of_apart (h : Apart below loc) :
    (x.merge y below).relativeTo loc = x.relativeTo loc := by
  rw [← relativeTo_within, within_merge_of_apart h, relativeTo_within]

/-- Nor is an error elsewhere. -/
theorem relativeTo_addError_of_not_below (h : ¬loc <+: l) (e : Error) (proceed : Bool) :
    (x.addError e proceed l).relativeTo loc = x.relativeTo loc := by
  have hhalt := Location.relativeTo?_eq_none (Location.startsWith_eq_false h)
  cases proceed <;> simp [relativeTo, addError, Filed.relativeTo_add_of_not_below h, hhalt]

/-- From the root everything is seen as it lies. -/
theorem relativeTo_root (x : Issues) : x.relativeTo .root = x := by
  have hroot : ∀ l, Location.relativeTo? l .root = some l := fun l =>
    Location.relativeTo?_append .root l
  simp [relativeTo, Filed.relativeTo, hroot]

/-- Picking out at a place shows what is seen from there. -/
theorem select_relativeTo (x : Issues) (errors warnings : Option (List Nat)) (loc : Location) :
    (x.relativeTo loc).select errors warnings .root = x.select errors warnings loc := by
  simp only [select, relativeTo, Filed.select_relativeTo, List.filterMap_filterMap, mk.injEq,
    true_and]
  refine List.filterMap_congr fun ⟨l, code⟩ _ => ?_
  cases hl : Location.relativeTo? l loc with
  | none => simp
  -- the mark is picked out by the errors that are seen beside it
  | some m =>
    obtain rfl := Location.relativeTo?_eq_some_iff.mp hl
    have hroot : Location.relativeTo? m .root = some m := by
      simp [Location.relativeTo?, Location.root]
    simp [holdsCode, Filed.under_relativeTo, hroot]

/-- Two collections hold the same at or below a place of each, and picking out there shows the
    same. -/
structure AgreeAt (x : Issues) (loc : Location) (y : Issues) (loc' : Location) : Prop where
  found : x.relativeTo loc = y.relativeTo loc'
  picked : ∀ errors warnings, x.select errors warnings loc = y.select errors warnings loc'

/-- What is seen decides what is picked out. -/
theorem AgreeAt.of_relativeTo {loc' : Location} (h : x.relativeTo loc = y.relativeTo loc') :
    x.AgreeAt loc y loc' where
  found := h
  picked errors warnings := by rw [← select_relativeTo x, h, select_relativeTo]

theorem AgreeAt.of_within (h : x.within loc = y.within loc) : x.AgreeAt loc y loc :=
  .of_relativeTo <| by rw [← relativeTo_within x, h, relativeTo_within]

end Issues

end Scim
