import Scim.Proofs.Issues.Everywhere
import Scim.Proofs.Issues.Halting

/-!
  # Merging at places

  Places act on collections: what is put below one place, and then with the whole below another, lies
  below the two joined (`Coherent.merge_merge`), and what was put below a place of nothing is seen
  from there as it was (`Coherent.select_merge`).

  Tidy lists with the same places in the same order and the same items at each place are equal
  (`Tidy.ext`).  So it is enough to know of a merge which places it has (`Tidy.places_merge`), what
  lies at or below the place and what lies elsewhere (`Tidy.under_merge_append`,
  `under_merge_of_not_below`).  A place that both collections have is no case of its own there.
-/

namespace Scim

namespace Filed

variable {α : Type} {f g other : Filed α} {below l m : Location}

/-! ## The places of a merge -/

/-- Adding appends the place if it is new. -/
theorem places_add (f : Filed α) (loc : Location) (items : List α) :
    (f.add loc items).map (·.1) =
      if loc ∈ f.map (·.1) then f.map (·.1) else f.map (·.1) ++ [loc] := by
  induction f with
  | nil => simp [add]
  | cons entry f ih =>
    obtain ⟨l, old⟩ := entry
    simp only [List.map_cons, List.mem_cons]
    by_cases hl : l = loc
    · simp [add, hl]
    · rw [add, if_neg hl, List.map_cons, ih]
      by_cases hmem : loc ∈ f.map (·.1)
      · rw [if_pos hmem, if_pos (.inr hmem)]
      · rw [if_neg hmem, if_neg (not_or.mpr ⟨Ne.symm hl, hmem⟩), List.cons_append]

/-- A merge keeps the places and appends those that are new. -/
theorem Tidy.places_merge (hother : other.Tidy) (f : Filed α) (below : Location) :
    (f.merge other below).map (·.1) =
      f.map (·.1) ++ ((other.map (·.1)).map (below ++ ·)).filter (· ∉ f.map (·.1)) := by
  induction other generalizing f with
  | nil => simp [Filed.merge]
  | cons entry other ih =>
    obtain ⟨l, items⟩ := entry
    show ((f.add (below ++ l) items).merge other below).map (·.1) = _
    rw [ih hother.of_cons, places_add, List.map_cons, List.map_cons]
    by_cases hold : below ++ l ∈ f.map (·.1)
    · rw [if_pos hold, List.filter_cons_of_neg (by simpa using hold)]
    · rw [if_neg hold, List.filter_cons_of_pos (by simpa using hold), List.append_assoc,
        List.singleton_append]
      -- the place is not used again, so that it is new only once
      congr 2
      refine List.filter_congr fun place hplace => ?_
      obtain ⟨m, hm, rfl⟩ := List.mem_map.mp hplace
      have hne : m ≠ l := by
        rintro rfl
        exact (List.nodup_cons.mp hother.nodup).1 hm
      simp [hne]

/-! ## What lies where after a merge -/

/-- A merge changes nothing elsewhere. -/
theorem under_merge_of_not_below (f other : Filed α) (h : ¬below <+: l) :
    (f.merge other below).under l = f.under l := by
  unfold merge
  induction other generalizing f with
  | nil => rfl
  | cons entry other ih =>
    have hne : below ++ entry.1 ≠ l := by
      rintro rfl
      exact h (List.prefix_append below entry.1)
    rw [List.foldl_cons, ih, under_add, if_neg hne]

/-- At a place below lies what was there and what was put there. -/
theorem Tidy.under_merge_append (hother : other.Tidy) (f : Filed α) (below m : Location) :
    (f.merge other below).under (below ++ m) = f.under (below ++ m) ++ other.under m := by
  induction other generalizing f with
  | nil => simp [Filed.merge, under]
  | cons entry other ih =>
    obtain ⟨l, items⟩ := entry
    show ((f.add (below ++ l) items).merge other below).under (below ++ m) = _
    rw [ih hother.of_cons, under_add]
    by_cases hl : l = m
    · -- no other entry is put there
      have hrest : under other m = [] := by
        apply under_of_not_mem
        rw [← hl]
        exact (List.nodup_cons.mp hother.nodup).1
      simp [under, hl, hrest]
    · simp [under, hl]

/-! ## Merges of merges -/

/-- Tidy entries are known from their places, in order, and what lies at each. -/
theorem Tidy.ext (hf : f.Tidy) (hg : g.Tidy) (hplaces : f.map (·.1) = g.map (·.1))
    (hunder : ∀ l, f.under l = g.under l) : f = g := by
  induction f generalizing g with
  | nil => exact (List.map_eq_nil_iff.mp hplaces.symm).symm
  | cons entry f ih =>
    cases g with
    | nil => simp at hplaces
    | cons entry' g =>
      obtain ⟨l, items⟩ := entry
      obtain ⟨l', items'⟩ := entry'
      obtain ⟨rfl, hrest⟩ : l = l' ∧ f.map (·.1) = g.map (·.1) := List.cons.inj hplaces
      -- the first place has what lies there, and the others have none of it
      have hitems : items = items' := by
        have hhead := hunder l
        simpa [under] using hhead
      have hf' := (List.nodup_cons.mp hf.nodup).1
      have hg' := (List.nodup_cons.mp hg.nodup).1
      have htail : f = g := by
        refine ih hf.of_cons hg.of_cons hrest fun m => ?_
        by_cases hm : l = m
        · rw [← hm, under_of_not_mem hf', under_of_not_mem hg']
        · have hboth := hunder m
          simpa [under, hm] using hboth
      rw [hitems, htail]

/-- Of the places of a third collection, both ways to merge append those that are new to both. -/
theorem filter_places_merge (f g : Filed α) (p q : Location) (places : List Location) :
    (((places.map (q ++ ·)).filter (· ∉ g.map (·.1))).map (p ++ ·)).filter (· ∉ f.map (·.1)) =
      (places.map (p ++ q ++ ·)).filter (· ∉ (f.merge g p).map (·.1)) := by
  have hjoin : (p ++ ·) ∘ (q ++ ·) = (p ++ q ++ ·) :=
    funext fun l => (List.append_assoc p q l).symm
  rw [List.filter_map, List.filter_map, List.filter_map, List.map_map, List.filter_filter, hjoin,
    List.filter_map]
  congr 1
  refine List.filter_congr fun l _ => ?_
  rw [Bool.eq_iff_iff]
  simp [mem_places_merge]

/-- Entries put below one place and then below another lie below the two joined. -/
theorem Tidy.merge_merge {h : Filed α} (hf : f.Tidy) (hg : g.Tidy) (hh : h.Tidy) (p q : Location) :
    f.merge (g.merge h q) p = (f.merge g p).merge h (p ++ q) := by
  have hgh : (g.merge h q).Tidy := hg.merge hh q
  refine (hf.merge hgh p).ext ((hf.merge hg p).merge hh (p ++ q)) ?_ fun l => ?_
  · rw [hgh.places_merge, hh.places_merge, hh.places_merge, List.map_append, List.filter_append,
      filter_places_merge, ← List.append_assoc, ← hg.places_merge]
  · -- the place lies below both, below the first only, or below neither
    by_cases hp : p <+: l
    · obtain ⟨m, rfl⟩ := hp
      rw [hgh.under_merge_append]
      by_cases hq : q <+: m
      · obtain ⟨n, rfl⟩ := hq
        rw [hh.under_merge_append, ← List.append_assoc p, hh.under_merge_append, List.append_assoc p,
          hg.under_merge_append, List.append_assoc]
      · have hpq : ¬p ++ q <+: p ++ m := fun hpre => hq ((List.prefix_append_right_inj p).mp hpre)
        rw [under_merge_of_not_below _ _ hq, under_merge_of_not_below _ _ hpq,
          hg.under_merge_append]
    · have hpq : ¬p ++ q <+: l := fun hpre => hp ((List.prefix_append p q).trans hpre)
      rw [under_merge_of_not_below _ _ hp, under_merge_of_not_below _ _ hpq,
        under_merge_of_not_below _ _ hp]

/-! ## Picking out everything -/

/-- Of entries none of which is empty, everything is picked out at the root. -/
theorem Tidy.select_all (h : f.Tidy) : f.select (fun _ => true) .root = f := by
  induction f with
  | nil => rfl
  | cons entry f ih =>
    obtain ⟨l, items⟩ := entry
    have hroot : Location.relativeTo? l .root = some l := Location.relativeTo?_append .root l
    cases items with
    | nil => exact absurd rfl (h.filled _ List.mem_cons_self)
    | cons item items =>
      have hstep : Filed.select ((l, item :: items) :: f) (fun _ => true) .root =
          (l, item :: items) :: Filed.select f (fun _ => true) .root := by
        simp [Filed.select, hroot]
      rw [hstep, ih h.of_cons]

end Filed

namespace Issues

variable {x y z : Issues} {below l : Location}

/-! ## The collection as a whole -/

/-- A collection put below one place and then below another lies below the two joined. -/
theorem Coherent.merge_merge (hx : x.Coherent) (hy : y.Coherent) (hz : z.Coherent)
    (p q : Location) : x.merge (y.merge z q) p = (x.merge y p).merge z (p ++ q) := by
  have herrors : (x.merge (y.merge z q) p).errors = ((x.merge y p).merge z (p ++ q)).errors :=
    hx.errors.merge_merge hy.errors hz.errors p q
  have hwarnings : (x.merge (y.merge z q) p).warnings = ((x.merge y p).merge z (p ++ q)).warnings :=
    hx.warnings.merge_merge hy.warnings hz.warnings p q
  have hhalts : (x.merge (y.merge z q) p).halts = ((x.merge y p).merge z (p ++ q)).halts := by
    simp [Issues.merge, Function.comp_def]
  show Issues.mk _ _ _ = Issues.mk _ _ _
  rw [Issues.mk.injEq]
  exact ⟨herrors, hwarnings, hhalts⟩

/-- Everything is picked out at the root. -/
theorem Coherent.select_all (h : x.Coherent) : x.select none none .root = x := by
  have hroot : ∀ l, Location.relativeTo? l .root = some l := fun l =>
    Location.relativeTo?_append .root l
  have herrors : (x.select none none .root).errors = x.errors := h.errors.select_all
  have hwarnings : (x.select none none .root).warnings = x.warnings := h.warnings.select_all
  have hhalts : (x.select none none .root).halts = x.halts := by
    rw [h.halts_select]
    simp [meant, hroot]
  show Issues.mk _ _ _ = x
  cases x
  rw [Issues.mk.injEq]
  exact ⟨herrors, hwarnings, hhalts⟩

/-- What was put below a place of nothing is found there as it was. -/
theorem Coherent.select_merge (h : x.Coherent) (below : Location) :
    (empty.merge x below).select none none below = x := by
  have hseen : (empty.merge x below).relativeTo below = x := by
    rw [relativeTo_merge]
    exact h.merge_root
  rw [← select_relativeTo, hseen, h.select_all]

/-! ## Where checking goes on -/

/-- Below the place, checking goes on where both parts let it. -/
theorem canProceedAt_merge_append (x y : Issues) (below m : Location) :
    (x.merge y below).canProceedAt (below ++ m) =
      (x.canProceedAt (below ++ m) && y.canProceedAt m) := by
  have hmoved : ∀ l, Location.startsWith (below ++ m) (below ++ l) = Location.startsWith m l := by
    intro l
    rw [Bool.eq_iff_iff, Location.startsWith_iff, Location.startsWith_iff]
    exact List.prefix_append_right_inj below
  simp only [canProceedAt, merge, List.all_append, List.all_map, Function.comp_def, hmoved]

/-- What halts below a place halts nothing elsewhere. -/
theorem canProceedAt_merge_of_not_below (x y : Issues) (h : ¬below <+: l) :
    (x.merge y below).canProceedAt l = x.canProceedAt l := by
  have hmoved : ∀ m, Location.startsWith l (below ++ m) = false := fun m =>
    Location.startsWith_eq_false fun hpre => h ((List.prefix_append below m).trans hpre)
  simp [canProceedAt, merge, hmoved]

/-- How merging goes by places. -/
structure MergesByPlace (x y z : Issues) (p q : Location) : Prop where
  /-- What was put below a place of nothing is found there as it was, marks included. -/
  found : (empty.merge y p).select none none p = y
  /-- A collection put below one place and then below another lies below the two joined. -/
  joined : x.merge (y.merge z q) p = (x.merge y p).merge z (p ++ q)
  /-- At or below the place, checking goes on where both let it, and the issues of both are there. -/
  proceed_below : ∀ m, (x.merge y p).canProceedAtAll [p ++ m] =
    (x.canProceedAtAll [p ++ m] && y.canProceedAtAll [m])
  errors_below : ∀ m, (x.merge y p).errorsAt (p ++ m) = x.errorsAt (p ++ m) ++ y.errorsAt m
  warnings_below : ∀ m, (x.merge y p).warningsAt (p ++ m) = x.warningsAt (p ++ m) ++ y.warningsAt m
  /-- Elsewhere everything stays as it was. -/
  proceed_elsewhere : ∀ l, ¬p <+: l → (x.merge y p).canProceedAtAll [l] = x.canProceedAtAll [l]
  errors_elsewhere : ∀ l, ¬p <+: l → (x.merge y p).errorsAt l = x.errorsAt l
  warnings_elsewhere : ∀ l, ¬p <+: l → (x.merge y p).warningsAt l = x.warningsAt l

/-- Collections with any history merge by places. -/
theorem History.mergesByPlace (a b c : History) (p q : Location) :
    MergesByPlace a.issues b.issues c.issues p q := by
  have hb := b.coherent
  constructor
  case found => exact hb.select_merge p
  case joined => exact a.coherent.merge_merge hb c.coherent p q
  case proceed_below =>
    intro m
    simp [canProceedAtAll, canProceedAt_merge_append]
  case errors_below => exact hb.errors.under_merge_append _ p
  case warnings_below => exact hb.warnings.under_merge_append _ p
  case proceed_elsewhere =>
    intro l hl
    simp [canProceedAtAll, canProceedAt_merge_of_not_below _ _ hl]
  case errors_elsewhere => exact fun l hl => Filed.under_merge_of_not_below _ _ hl
  case warnings_elsewhere => exact fun l hl => Filed.under_merge_of_not_below _ _ hl

end Issues

end Scim
