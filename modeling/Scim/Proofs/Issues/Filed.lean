import Mathlib.Data.List.Nodup
import Mathlib.Data.List.Perm.Basic
import Scim.Issues.Basic

/-!
  # Items under places

  Filed items are looked at through `Filed.all`, the items each with its place.  Every operation has
  an equation for that view: `add` and `merge` put items in (`all_add_perm`, `all_merge_perm`),
  `select` picks some of them (`all_select`), and `drop` leaves the others (`all_drop`).

  What is read off at one place (`under`) is what the view has for it (`under_eq`), as long as each
  place occurs once.  So it does, and none without items, in whatever the operations make from
  nothing (`Tidy`).
-/

namespace Scim

/-! ## Places -/

namespace Location

/-- A place starts with the places above it. -/
theorem startsWith_iff {l above : Location} : startsWith l above = true ↔ above <+: l :=
  List.isPrefixOf_iff_prefix

@[simp]
theorem startsWith_append (above l : Location) : startsWith (above ++ l) above = true :=
  startsWith_iff.mpr (List.prefix_append above l)

@[simp]
theorem relativeTo?_append (above l : Location) : relativeTo? (above ++ l) above = some l := by
  induction above with
  | nil => cases l <;> rfl
  | cons step above ih => simpa [relativeTo?] using ih

/-- The way down from a place leads to the place again. -/
theorem relativeTo?_eq_some_iff {l above m : Location} :
    relativeTo? l above = some m ↔ l = above ++ m := by
  constructor
  · intro h
    induction above generalizing l with
    | nil => cases l <;> simpa [relativeTo?] using h
    | cons step above ih =>
      cases l with
      | nil => simp [relativeTo?] at h
      | cons s l =>
        simp only [relativeTo?] at h
        split at h
        · rename_i hs
          rw [hs, ih h, List.cons_append]
        · simp at h
  · rintro rfl
    exact relativeTo?_append above m

/-- There is no way down to a place that does not lie below. -/
theorem relativeTo?_eq_none {l above : Location} (h : startsWith l above = false) :
    relativeTo? l above = none := by
  cases hrel : relativeTo? l above with
  | none => rfl
  | some m =>
    obtain rfl := relativeTo?_eq_some_iff.mp hrel
    simp at h

/-- What is picked out by a test, at its way down from a place, is there below the place. -/
theorem mem_picked {α : Type} {items : List (Location × α)} {test : α → Bool} {below m : Location}
    {item : α} :
    (m, item) ∈ (items.filterMap fun (l, i) =>
        if test i then (relativeTo? l below).map fun m => (m, i) else none) ↔
      (below ++ m, item) ∈ items ∧ test item = true := by
  rw [List.mem_filterMap]
  constructor
  · rintro ⟨⟨l, i⟩, hmem, hpick⟩
    cases htest : test i with
    | false => simp [htest] at hpick
    | true =>
      obtain ⟨hrel, rfl⟩ : relativeTo? l below = some m ∧ i = item := by simpa [htest] using hpick
      obtain rfl := relativeTo?_eq_some_iff.mp hrel
      exact ⟨hmem, htest⟩
  · rintro ⟨hmem, htest⟩
    exact ⟨(below ++ m, item), hmem, by simp [htest]⟩

end Location

namespace Filed

variable {α : Type}

/-! ## The items with their places -/

@[simp]
theorem all_nil : all ([] : Filed α) = [] := rfl

@[simp]
theorem all_cons (l : Location) (items : List α) (f : Filed α) :
    all ((l, items) :: f) = items.map (fun item => (l, item)) ++ all f := rfl

/-- What is added comes to the view, whatever its place in the order. -/
theorem all_add_perm (f : Filed α) (loc : Location) (items : List α) :
    (f.add loc items).all.Perm (f.all ++ items.map fun item => (loc, item)) := by
  induction f with
  | nil => simp [add]
  | cons entry f ih =>
    obtain ⟨l, old⟩ := entry
    unfold add
    split
    · rename_i h
      subst h
      -- the new items stand before the rest, where the view has them at the end
      simp only [all_cons, List.map_append, List.append_assoc]
      exact List.Perm.append_left _ List.perm_append_comm
    · simp only [all_cons, List.append_assoc]
      exact List.Perm.append_left _ ih

/-- So does what is merged, each item at its place below. -/
theorem all_merge_perm (f other : Filed α) (below : Location) :
    (f.merge other below).all.Perm
      (f.all ++ other.all.map fun (l, item) => (below ++ l, item)) := by
  unfold merge
  induction other generalizing f with
  | nil => simp
  | cons entry other ih =>
    obtain ⟨l, items⟩ := entry
    have hadd := (all_add_perm f (below ++ l) items).append_right
      ((all other).map fun (l, item) => (below ++ l, item))
    simpa [Function.comp_def] using (ih (f.add (below ++ l) items)).trans hadd

/-- An item is in the view if it was there or was added. -/
theorem mem_all_add {f : Filed α} {loc l : Location} {items : List α} {item : α} :
    (l, item) ∈ (f.add loc items).all ↔ (l, item) ∈ f.all ∨ l = loc ∧ item ∈ items := by
  rw [(all_add_perm f loc items).mem_iff]
  simp only [List.mem_append, List.mem_map, Prod.mk.injEq]
  grind

/-- An item is in the view if it was there or was merged from its way down. -/
theorem mem_all_merge {f other : Filed α} {below l : Location} {item : α} :
    (l, item) ∈ (f.merge other below).all ↔
      (l, item) ∈ f.all ∨ ∃ m, l = below ++ m ∧ (m, item) ∈ other.all := by
  rw [(all_merge_perm f other below).mem_iff]
  simp only [List.mem_append, List.mem_map, Prod.exists, Prod.mk.injEq]
  grind

/-! ## Picking out and leaving -/

/-- The entries after picking out: what passes the test of each list at or below the place. -/
theorem mem_select {f : Filed α} {test : α → Bool} {below m : Location} {picked : List α} :
    (m, picked) ∈ f.select test below ↔
      picked ≠ [] ∧ ∃ items, (below ++ m, items) ∈ f ∧ items.filter test = picked := by
  unfold select
  rw [List.mem_filterMap]
  constructor
  · rintro ⟨⟨l, items⟩, hmem, hpick⟩
    cases hrel : Location.relativeTo? l below with
    | none => simp [hrel] at hpick
    | some m' =>
      obtain rfl := Location.relativeTo?_eq_some_iff.mp hrel
      cases hfilter : items.filter test with
      | nil => simp [hfilter] at hpick
      | cons item rest =>
        obtain ⟨rfl, rfl⟩ : m' = m ∧ item :: rest = picked := by simpa [hfilter] using hpick
        exact ⟨by simp, items, hmem, hfilter⟩
  · rintro ⟨hne, items, hmem, rfl⟩
    refine ⟨(below ++ m, items), hmem, ?_⟩
    cases hfilter : items.filter test with
    | nil => exact absurd hfilter hne
    | cons item rest => simp [hfilter]

/-- The entries after leaving out: what fails the test of each list at or below the place, and all
    other lists as they are. -/
theorem mem_drop {f : Filed α} {test : α → Bool} {below l : Location} {kept : List α} :
    (l, kept) ∈ f.drop test below ↔
      if Location.startsWith l below then
        kept ≠ [] ∧ ∃ items, (l, items) ∈ f ∧ items.filter (fun item => !test item) = kept
      else (l, kept) ∈ f := by
  unfold drop
  rw [List.mem_filterMap]
  constructor
  · rintro ⟨⟨l', items⟩, hmem, hkeep⟩
    -- an entry elsewhere is kept as it is
    cases hbelow : Location.startsWith l' below with
    | false =>
      obtain ⟨rfl, rfl⟩ : l' = l ∧ items = kept := by simpa [hbelow] using hkeep
      simpa [hbelow] using hmem
    | true =>
      cases hfilter : items.filter fun item => !test item with
      | nil => simp [hbelow, hfilter] at hkeep
      | cons item rest =>
        obtain ⟨rfl, rfl⟩ : l' = l ∧ item :: rest = kept := by
          simpa [hbelow, hfilter] using hkeep
        rw [if_pos hbelow]
        exact ⟨by simp, items, hmem, hfilter⟩
  · intro h
    cases hbelow : Location.startsWith l below with
    | false =>
      rw [if_neg (by simp [hbelow])] at h
      exact ⟨(l, kept), h, by simp [hbelow]⟩
    | true =>
      rw [if_pos hbelow] at h
      obtain ⟨hne, items, hmem, rfl⟩ := h
      refine ⟨(l, items), hmem, ?_⟩
      cases hfilter : items.filter fun item => !test item with
      | nil => exact absurd hfilter hne
      | cons item rest => simp [hbelow, hfilter]

/-- Picking out takes the items that pass the test at or below the place, at their way from there. -/
theorem all_select (f : Filed α) (test : α → Bool) (below : Location) :
    (f.select test below).all = f.all.filterMap fun (l, item) =>
      if test item then (Location.relativeTo? l below).map fun m => (m, item) else none := by
  induction f with
  | nil => rfl
  | cons entry f ih =>
    obtain ⟨l, items⟩ := entry
    rw [all_cons, List.filterMap_append, ← ih, List.filterMap_map]
    unfold select
    -- an entry elsewhere gives nothing, whatever its items
    cases hrel : Location.relativeTo? l below with
    | none => simp [hrel]
    | some m =>
      have hitems : items.filterMap (fun item => if test item then some (m, item) else none) =
          (items.filter test).map fun item => (m, item) := by
        rw [← List.filterMap_eq_map, ← List.filterMap_eq_filter, List.filterMap_filterMap]
        congr 1
        funext item
        cases htest : test item <;> simp [Option.guard, htest]
      cases hpicked : items.filter test with
      | nil => simp [hrel, hpicked, hitems]
      | cons item picked => simp [hrel, hpicked, hitems]

/-- Leaving out takes just the others, in their order. -/
theorem all_drop (f : Filed α) (test : α → Bool) (below : Location) :
    (f.drop test below).all =
      f.all.filter fun (l, item) => !(Location.startsWith l below && test item) := by
  induction f with
  | nil => rfl
  | cons entry f ih =>
    obtain ⟨l, items⟩ := entry
    rw [all_cons, List.filter_append, ← ih, List.filter_map]
    unfold drop
    cases hbelow : Location.startsWith l below with
    | false => simp [hbelow, Function.comp_def]
    | true =>
      cases hkept : items.filter fun item => !test item with
      | nil => simp [hbelow, hkept, Function.comp_def]
      | cons item kept => simp [hbelow, hkept, Function.comp_def]

/-- The items picked out are those that pass the test, at or below the place. -/
theorem mem_all_select {f : Filed α} {test : α → Bool} {below m : Location} {item : α} :
    (m, item) ∈ (f.select test below).all ↔ (below ++ m, item) ∈ f.all ∧ test item = true := by
  rw [all_select]
  exact Location.mem_picked

/-- The items left are those elsewhere, and those that fail the test. -/
theorem mem_all_drop {f : Filed α} {test : α → Bool} {below l : Location} {item : α} :
    (l, item) ∈ (f.drop test below).all ↔
      (l, item) ∈ f.all ∧ (Location.startsWith l below = true → test item = false) := by
  rw [all_drop, List.mem_filter]
  simp only [Bool.not_eq_true', Bool.and_eq_false_imp]

/-- What was picked out and what was left make up the whole. -/
theorem all_merge_select_perm (f : Filed α) (test : α → Bool) (below : Location) :
    ((f.drop test below).merge (f.select test below) below).all.Perm f.all := by
  refine (all_merge_perm _ _ below).trans ?_
  rw [all_select, all_drop, List.map_filterMap]
  -- brought back to its place, what was picked is what the leaving took away
  have hback : (f.all.filterMap fun (l, item) =>
        ((if test item then (Location.relativeTo? l below).map fun m => (m, item) else none).map
          fun (m, item) => (below ++ m, item))) =
      f.all.filter fun (l, item) => Location.startsWith l below && test item := by
    rw [← List.filterMap_eq_filter]
    congr 1
    funext ⟨l, item⟩
    cases hbelow : Location.startsWith l below with
    | false => simp [Location.relativeTo?_eq_none hbelow, hbelow, Option.guard]
    | true =>
      obtain ⟨m, rfl⟩ := Location.startsWith_iff.mp hbelow
      cases htest : test item <;> simp [htest, Option.guard]
  rw [hback]
  refine List.perm_append_comm.trans ?_
  simpa using List.filter_append_perm (fun (l, item) => Location.startsWith l below && test item)
    f.all

/-- A second look for the same items finds none. -/
theorem select_drop (f : Filed α) (test : α → Bool) (below : Location) :
    (f.drop test below).select test below = [] := by
  refine List.eq_nil_iff_forall_not_mem.mpr fun ⟨m, picked⟩ hpicked => ?_
  obtain ⟨hne, items, hitems, rfl⟩ := mem_select.mp hpicked
  rw [mem_drop, if_pos (Location.startsWith_append below m)] at hitems
  obtain ⟨-, old, -, rfl⟩ := hitems
  -- all that was left fails the test
  simp [List.filter_filter] at hne

/-! ## Each place once, and none without items -/

/-- Each place occurs once, and has items. -/
structure Tidy (f : Filed α) : Prop where
  nodup : (f.map (·.1)).Nodup
  filled : ∀ entry ∈ f, entry.2 ≠ []

theorem tidy_nil : Tidy ([] : Filed α) where
  nodup := List.nodup_nil
  filled := by simp

/-- Adding items adds their place, if it is new. -/
theorem mem_places_add {f : Filed α} {loc l : Location} {items : List α} :
    l ∈ (f.add loc items).map (·.1) ↔ l ∈ f.map (·.1) ∨ l = loc := by
  induction f with
  | nil => simp [add]
  | cons entry f ih =>
    unfold add
    split
    · rename_i h
      simp only [List.map_cons, List.mem_cons, h]
      grind
    · simp only [List.map_cons, List.mem_cons, ih, or_assoc]

/-- What is filed under a new place comes last. -/
theorem add_of_not_mem {f : Filed α} {loc : Location} (h : loc ∉ f.map (·.1))
    (items : List α) : f.add loc items = f ++ [(loc, items)] := by
  induction f with
  | nil => rfl
  | cons entry f ih =>
    obtain ⟨l, old⟩ := entry
    simp only [List.map_cons, List.mem_cons, not_or] at h
    rw [add, if_neg (Ne.symm h.1), ih h.2, List.cons_append]

theorem Tidy.of_cons {entry : Location × List α} {f : Filed α} (h : Tidy (entry :: f)) : Tidy f where
  nodup := (List.nodup_cons.mp h.nodup).2
  filled e he := h.filled e (List.mem_cons_of_mem _ he)

/-- Adding items keeps entries tidy, if there are items. -/
theorem Tidy.add {f : Filed α} (h : f.Tidy) (loc : Location) {items : List α} (hitems : items ≠ []) :
    (f.add loc items).Tidy := by
  induction f with
  | nil => exact ⟨by simp [Filed.add], by simpa [Filed.add] using hitems⟩
  | cons entry f ih =>
    obtain ⟨l, old⟩ := entry
    have hrest := ih h.of_cons
    obtain ⟨hnew, hnodup⟩ := List.nodup_cons.mp h.nodup
    unfold Filed.add
    split
    · refine ⟨h.nodup, fun e he => ?_⟩
      rcases List.mem_cons.mp he with rfl | he
      · simp [hitems]
      · exact h.of_cons.filled e he
    · rename_i hne
      refine ⟨List.nodup_cons.mpr ⟨?_, hrest.nodup⟩, fun e he => ?_⟩
      · -- the head's place is not the one that was added to
        rw [mem_places_add]
        exact fun hmem => hmem.elim hnew hne
      · rcases List.mem_cons.mp he with rfl | he
        · exact h.filled _ List.mem_cons_self
        · exact hrest.filled e he

/-- Merging keeps entries tidy. -/
theorem Tidy.merge {f other : Filed α} (h : f.Tidy) (hother : other.Tidy) (below : Location) :
    (f.merge other below).Tidy := by
  unfold Filed.merge
  induction other generalizing f with
  | nil => exact h
  | cons entry other ih =>
    have hitems := hother.filled entry List.mem_cons_self
    exact ih (h.add (below ++ entry.1) hitems) hother.of_cons

/-- Entries with places of their own stay in order when they are filed once more. -/
theorem foldl_add_append {f other : Filed α} (h : ((f ++ other).map (·.1)).Nodup) :
    other.foldl (fun f (l, items) => f.add (Location.root ++ l) items) f = f ++ other := by
  induction other generalizing f with
  | nil => rw [List.foldl_nil, List.append_nil]
  | cons entry other ih =>
    obtain ⟨l, items⟩ := entry
    have hfresh : l ∉ f.map (·.1) := by
      rw [List.map_append, List.nodup_append] at h
      exact fun hl => h.2.2 l hl l List.mem_cons_self rfl
    show other.foldl _ (f.add l items) = f ++ (l, items) :: other
    rw [add_of_not_mem hfresh, ih (by simpa using h), List.append_assoc, List.singleton_append]

/-- Tidy entries merged into nothing are as they were. -/
theorem Tidy.merge_root {f : Filed α} (h : f.Tidy) : Filed.merge [] f .root = f :=
  foldl_add_append h.nodup

/-- A part of a list of entries names places of the list only, each as often as the list does. -/
theorem places_filterMap_sublist {β : Type} {f : Filed α} {part : Location × List α → Option β}
    {place : β → Location} (h : ∀ {entry b}, part entry = some b → place b = entry.1) :
    ((f.filterMap part).map place).Sublist (f.map (·.1)) := by
  induction f with
  | nil => simp
  | cons entry f ih =>
    cases hpart : part entry with
    | none =>
      rw [List.filterMap_cons_none hpart]
      exact ih.cons _
    | some b =>
      rw [List.filterMap_cons_some hpart, List.map_cons, List.map_cons, h hpart]
      exact ih.cons_cons _

/-- What is picked out is tidy. -/
theorem Tidy.select {f : Filed α} (h : f.Tidy) (test : α → Bool) (below : Location) :
    (f.select test below).Tidy := by
  refine ⟨?_, fun ⟨m, picked⟩ he => (mem_select.mp he).1⟩
  -- the way down differs where the places do
  apply List.Nodup.of_map (below ++ ·)
  rw [List.map_map]
  refine h.nodup.sublist (places_filterMap_sublist fun {entry b} hpick => ?_)
  cases hrel : Location.relativeTo? entry.1 below with
  | none => simp [hrel] at hpick
  | some m =>
    cases hfilter : entry.2.filter test with
    | nil => simp [hrel, hfilter] at hpick
    | cons item rest =>
      obtain rfl : (m, item :: rest) = b := by simpa [hrel, hfilter] using hpick
      exact (Location.relativeTo?_eq_some_iff.mp hrel).symm

/-- What is left is tidy, since lists without items are left out. -/
theorem Tidy.drop {f : Filed α} (h : f.Tidy) (test : α → Bool) (below : Location) :
    (f.drop test below).Tidy := by
  constructor
  · refine h.nodup.sublist (places_filterMap_sublist fun {entry b} hkeep => ?_)
    dsimp only at hkeep
    split at hkeep
    · split at hkeep
      · simp at hkeep
      · obtain rfl := Option.some.inj hkeep
        rfl
    · obtain rfl := Option.some.inj hkeep
      rfl
  · rintro ⟨l, kept⟩ he
    rw [mem_drop] at he
    split at he
    · exact he.1
    · exact h.filled _ he

/-- Nothing lies at a place that does not occur. -/
theorem under_of_not_mem {f : Filed α} {loc : Location} (h : loc ∉ f.map (·.1)) :
    f.under loc = [] := by
  induction f with
  | nil => rfl
  | cons entry f ih =>
    rw [List.map_cons, List.mem_cons, not_or] at h
    show (if entry.1 = loc then entry.2 else under f loc) = []
    rw [if_neg (Ne.symm h.1), ih h.2]

/-- At a place lies what the view has for it. -/
theorem Tidy.under_eq {f : Filed α} (h : f.Tidy) (loc : Location) :
    f.under loc = (f.all.filter fun (l, _) => decide (l = loc)).map (·.2) := by
  induction f with
  | nil => rfl
  | cons entry f ih =>
    obtain ⟨l, items⟩ := entry
    rw [all_cons, List.filter_append, List.map_append, ← ih h.of_cons, List.filter_map]
    by_cases hl : l = loc
    · -- no other entry has the place
      have hrest : under f loc = [] := by
        apply under_of_not_mem
        rw [← hl]
        exact (List.nodup_cons.mp h.nodup).1
      simp [under, hl, hrest, Function.comp_def]
    · simp [under, hl, Function.comp_def]

/-- An item lies at a place just if the view has it there. -/
theorem Tidy.mem_under {f : Filed α} (h : f.Tidy) {loc : Location} {item : α} :
    item ∈ f.under loc ↔ (loc, item) ∈ f.all := by
  simp [h.under_eq]

/-- Views that agree up to the order agree so at each place. -/
theorem Tidy.under_perm {f g : Filed α} (hf : f.Tidy) (hg : g.Tidy) (h : f.all.Perm g.all)
    (loc : Location) : (f.under loc).Perm (g.under loc) := by
  rw [hf.under_eq, hg.under_eq]
  exact (h.filter _).map _

end Filed

end Scim
