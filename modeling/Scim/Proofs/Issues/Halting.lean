import Scim.Proofs.Issues
import Scim.Proofs.Issues.Filed

/-!
  # What halts

  A collection of issues has a history: errors and warnings were added, other collections were
  merged into it, and issues were popped out of it.  The marks of what halts are kept beside the
  errors, so it is to be shown that no step brings the two apart.

    * `History`: how a collection came about, and what it is in the end (`History.issues`);
    * `Coherent`: each mark stands beside an error that has its code at its place.  Every step keeps
      it (`Coherent.addError`, `Coherent.merge`, `Coherent.drop`, ...), so it holds after any history
      (`History.coherent`);
    * `HaltsAt`: an error that halts was added at a place, as the merges since have moved it.  As
      long as nothing is popped, the marks are just these (`History.haltsAt_iff`).
-/

namespace Scim

namespace Issues

variable {x y : Issues}

/-! ## Marks beside errors -/

/-- The filed lists are tidy, and what halts is an error that is there. -/
structure Coherent (x : Issues) : Prop where
  errors : x.errors.Tidy
  warnings : x.warnings.Tidy
  marked : ∀ {l code}, (l, code) ∈ x.halts → ∃ e, (l, e) ∈ x.allErrors ∧ e.code = code

/-- Nothing is coherent. -/
theorem coherent_empty : empty.Coherent where
  errors := Filed.tidy_nil
  warnings := Filed.tidy_nil
  marked h := by simp [empty] at h

/-- An error that halts comes with its mark. -/
theorem Coherent.addError (h : x.Coherent) (error : Error) (proceed : Bool) (loc : Location) :
    (x.addError error proceed loc).Coherent where
  errors := h.errors.add loc (by simp)
  warnings := h.warnings
  marked {l code} hmark := by
    -- what was there before is there still
    have hadded : ∀ {e}, (l, e) ∈ x.allErrors ∨ l = loc ∧ e = error →
        (l, e) ∈ (x.addError error proceed loc).allErrors := by
      intro e he
      exact Filed.mem_all_add.mpr (by rwa [List.mem_singleton])
    have hold : (l, code) ∈ x.halts →
        ∃ e, (l, e) ∈ (x.addError error proceed loc).allErrors ∧ e.code = code := by
      intro hmem
      obtain ⟨e, he, hcode⟩ := h.marked hmem
      exact ⟨e, hadded (.inl he), hcode⟩
    cases proceed with
    | true => exact hold hmark
    -- a mark that is new stands beside the error that was added
    | false =>
      rcases List.mem_append.mp hmark with hmem | hnew
      · exact hold hmem
      · obtain ⟨rfl, rfl⟩ : l = loc ∧ code = error.code := by simpa using hnew
        exact ⟨error, hadded (.inr ⟨rfl, rfl⟩), rfl⟩

/-- A warning marks nothing. -/
theorem Coherent.addWarning (h : x.Coherent) (warning : Warning) (loc : Location) :
    (x.addWarning warning loc).Coherent where
  errors := h.errors
  warnings := h.warnings.add loc (by simp)
  marked hmark := h.marked hmark

/-- Whatever is put below a place takes its marks along. -/
theorem Coherent.merge (hx : x.Coherent) (hy : y.Coherent) (below : Location) :
    (x.merge y below).Coherent where
  errors := hx.errors.merge hy.errors below
  warnings := hx.warnings.merge hy.warnings below
  marked {l code} hmark := by
    rcases List.mem_append.mp hmark with hmem | hmoved
    · obtain ⟨e, he, hcode⟩ := hx.marked hmem
      exact ⟨e, Filed.mem_all_merge.mpr (.inl he), hcode⟩
    · obtain ⟨⟨m, c⟩, hmem, heq⟩ := List.mem_map.mp hmoved
      obtain ⟨rfl, rfl⟩ : below ++ m = l ∧ c = code := by simpa using heq
      obtain ⟨e, he, hcode⟩ := hy.marked hmem
      exact ⟨e, Filed.mem_all_merge.mpr (.inr ⟨m, rfl, he⟩), hcode⟩

/-- Nothing is lost or added where nothing was found before. -/
theorem Coherent.merge_root (h : x.Coherent) : empty.merge x .root = x := by
  have herrors : (empty.merge x .root).errors = x.errors := h.errors.merge_root
  have hwarnings : (empty.merge x .root).warnings = x.warnings := h.warnings.merge_root
  have hhalts : (empty.merge x .root).halts = x.halts := by
    simp [Issues.merge, empty, Location.root]
  exact congr (congr (congrArg Issues.mk herrors) hwarnings) hhalts

/-! ## Picking out by code -/

/-- Whether a code is meant by the list for its own kind of issues and the one for the other kind: it
    is listed, or there is no list at all. -/
def meant (own other : Option (List Nat)) (code : Nat) : Bool :=
  match own with
  | some codes => codes.contains code
  | none => other.isNone

/-- The lists of codes mean what the tests of a pop ask. -/
theorem has_ofLists (errors warnings : Option (List Nat)) :
    (Codes.ofLists errors warnings).1.has = meant errors warnings ∧
      (Codes.ofLists errors warnings).2.has = meant warnings errors := by
  cases errors <;> cases warnings <;> exact ⟨rfl, rfl⟩

variable {errors warnings : Option (List Nat)} {below : Location}

/-- The errors picked out are those meant, at or below the place. -/
theorem errors_select : (x.select errors warnings below).errors =
    x.errors.select (fun e => meant errors warnings e.code) below := by
  rw [← (has_ofLists errors warnings).1]
  rfl

theorem warnings_select : (x.select errors warnings below).warnings =
    x.warnings.select (fun w => meant warnings errors w.code) below := by
  rw [← (has_ofLists errors warnings).2]
  rfl

/-- The errors left are the others. -/
theorem errors_drop : (x.drop errors warnings below).errors =
    x.errors.drop (fun e => meant errors warnings e.code) below := by
  rw [← (has_ofLists errors warnings).1]
  rfl

theorem warnings_drop : (x.drop errors warnings below).warnings =
    x.warnings.drop (fun w => meant warnings errors w.code) below := by
  rw [← (has_ofLists errors warnings).2]
  rfl

/-- Of a mark, it is the code alone that decides: an error that has it stands beside it. -/
theorem Coherent.holdsCode (h : x.Coherent) {l : Location} {code : Nat} (hmark : (l, code) ∈ x.halts) :
    x.holdsCode (Codes.ofLists errors warnings).1 l code = meant errors warnings code := by
  obtain ⟨e, he, hcode⟩ := h.marked hmark
  have hany : (x.errors.under l).any (fun e => e.code == code) = true :=
    List.any_eq_true.mpr ⟨e, h.errors.mem_under.mpr he, by simpa using hcode⟩
  rw [Issues.holdsCode, hany, Bool.and_true, (has_ofLists errors warnings).1]

/-- The marks picked out are those with the codes meant. -/
theorem Coherent.halts_select (h : x.Coherent) : (x.select errors warnings below).halts =
    x.halts.filterMap fun (l, code) =>
      if meant errors warnings code then
        (Location.relativeTo? l below).map fun m => (m, code)
      else none := by
  refine List.filterMap_congr fun ⟨l, code⟩ hmark => ?_
  show (if x.holdsCode (Codes.ofLists errors warnings).1 l code then _ else _) = _
  rw [h.holdsCode hmark]

/-- The marks left are the others. -/
theorem Coherent.halts_drop (h : x.Coherent) : (x.drop errors warnings below).halts =
    x.halts.filter fun (l, code) =>
      !(Location.startsWith l below && meant errors warnings code) := by
  refine List.filter_congr fun ⟨l, code⟩ hmark => ?_
  show (!(_ && x.holdsCode (Codes.ofLists errors warnings).1 l code)) = _
  rw [h.holdsCode hmark]

/-- A mark is picked out if its code is meant and it lies at or below the place. -/
theorem Coherent.mem_halts_select (h : x.Coherent) {m : Location} {code : Nat} :
    (m, code) ∈ (x.select errors warnings below).halts ↔
      (below ++ m, code) ∈ x.halts ∧ meant errors warnings code = true := by
  rw [h.halts_select]
  exact Location.mem_picked

/-- What is picked out has the marks of its errors. -/
theorem Coherent.select (h : x.Coherent) (errors warnings : Option (List Nat)) (below : Location) :
    (x.select errors warnings below).Coherent where
  errors := errors_select ▸ h.errors.select _ _
  warnings := warnings_select ▸ h.warnings.select _ _
  marked {m code} hmark := by
    obtain ⟨hmem, hmeant⟩ := h.mem_halts_select.mp hmark
    obtain ⟨e, he, rfl⟩ := h.marked hmem
    refine ⟨e, ?_, rfl⟩
    rw [allErrors, errors_select]
    exact Filed.mem_all_select.mpr ⟨he, hmeant⟩

/-- A mark that is left stands for an error that is left. -/
theorem Coherent.drop (h : x.Coherent) (errors warnings : Option (List Nat)) (below : Location) :
    (x.drop errors warnings below).Coherent where
  errors := errors_drop ▸ h.errors.drop _ _
  warnings := warnings_drop ▸ h.warnings.drop _ _
  marked {l code} hmark := by
    rw [h.halts_drop, List.mem_filter] at hmark
    obtain ⟨hmem, hleft⟩ := hmark
    simp only [Bool.not_eq_true', Bool.and_eq_false_imp] at hleft
    obtain ⟨e, he, rfl⟩ := h.marked hmem
    refine ⟨e, ?_, rfl⟩
    rw [allErrors, errors_drop]
    exact Filed.mem_all_drop.mpr ⟨he, hleft⟩

/-! ## Histories -/

/-- How a collection of issues came about. -/
inductive History where
  | empty
  | addError (h : History) (error : Error) (proceed : Bool) (loc : Location)
  | addWarning (h : History) (warning : Warning) (loc : Location)
  | merge (h other : History) (below : Location)
  /-- What a pop leaves. -/
  | left (h : History) (errors warnings : Option (List Nat)) (below : Location)
  /-- What a pop gives. -/
  | popped (h : History) (errors warnings : Option (List Nat)) (below : Location)

namespace History

/-- What has been collected in the end. -/
def issues : History → Issues
  | empty => .empty
  | addError h error proceed loc => h.issues.addError error proceed loc
  | addWarning h warning loc => h.issues.addWarning warning loc
  | merge h other below => h.issues.merge other.issues below
  | left h errors warnings below => (h.issues.pop errors warnings below).2
  | popped h errors warnings below => (h.issues.pop errors warnings below).1

/-- Whether nothing was ever popped, neither here nor from what was merged. -/
def collects : History → Bool
  | empty => true
  | addError h .. => h.collects
  | addWarning h .. => h.collects
  | merge h other _ => h.collects && other.collects
  | left .. => false
  | popped .. => false

/-- An error that halts was added, at a place that the merges since have moved to this one. -/
inductive HaltsAt : History → Location → Prop
  | here (h : History) (error : Error) (loc : Location) : HaltsAt (h.addError error false loc) loc
  | addError {h : History} {l : Location} (error : Error) (proceed : Bool) (loc : Location) :
    HaltsAt h l → HaltsAt (h.addError error proceed loc) l
  | addWarning {h : History} {l : Location} (warning : Warning) (loc : Location) :
    HaltsAt h l → HaltsAt (h.addWarning warning loc) l
  | into {h : History} {l : Location} (other : History) (below : Location) :
    HaltsAt h l → HaltsAt (h.merge other below) l
  | merged (h : History) {other : History} {l : Location} (below : Location) :
    HaltsAt other l → HaltsAt (h.merge other below) (below ++ l)

/-- After any history each mark stands beside its error. -/
theorem coherent (h : History) : h.issues.Coherent := by
  induction h with
  | empty => exact coherent_empty
  | addError h error proceed loc ih => exact ih.addError error proceed loc
  | addWarning h warning loc ih => exact ih.addWarning warning loc
  | merge h other below ih ihother => exact ih.merge ihother below
  | left h errors warnings below ih => exact ih.drop errors warnings below
  | popped h errors warnings below ih => exact ih.select errors warnings below

/-- As long as nothing is popped, the places with marks are those of the errors that halt. -/
theorem haltsAt_iff {h : History} (hc : h.collects = true) {l : Location} :
    (∃ code, (l, code) ∈ h.issues.halts) ↔ h.HaltsAt l := by
  induction h generalizing l with
  | empty =>
    constructor
    · rintro ⟨code, hmem⟩
      simp [issues, Issues.empty] at hmem
    · rintro ⟨⟩
  | addError h error proceed loc ih =>
    cases proceed with
    | true =>
      constructor
      · intro hmark
        exact .addError error true loc ((ih hc).mp hmark)
      · rintro (_ | ⟨_, _, _, hat⟩)
        exact (ih hc).mpr hat
    | false =>
      constructor
      · rintro ⟨code, hmem⟩
        rcases List.mem_append.mp hmem with hold | hnew
        · exact .addError error false loc ((ih hc).mp ⟨code, hold⟩)
        · obtain ⟨rfl, -⟩ : l = loc ∧ code = error.code := by simpa using hnew
          exact .here h error l
      · rintro (_ | ⟨_, _, _, hat⟩)
        · exact ⟨error.code, List.mem_append_right _ List.mem_cons_self⟩
        · obtain ⟨code, hold⟩ := (ih hc).mpr hat
          exact ⟨code, List.mem_append_left _ hold⟩
  | addWarning h warning loc ih =>
    constructor
    · intro hmark
      exact .addWarning warning loc ((ih hc).mp hmark)
    · rintro (_ | _ | ⟨_, _, hat⟩)
      exact (ih hc).mpr hat
  | merge h other below ih ihother =>
    obtain ⟨hh, hother⟩ : h.collects = true ∧ other.collects = true := by
      simpa [collects] using hc
    constructor
    · rintro ⟨code, hmem⟩
      rcases List.mem_append.mp hmem with hold | hmoved
      · exact .into other below ((ih hh).mp ⟨code, hold⟩)
      · obtain ⟨⟨m, c⟩, hmark, heq⟩ := List.mem_map.mp hmoved
        obtain ⟨rfl, rfl⟩ : below ++ m = l ∧ c = code := by simpa using heq
        exact .merged h below ((ihother hother).mp ⟨c, hmark⟩)
    · rintro (_ | _ | _ | ⟨_, _, hat⟩ | ⟨_, _, hat⟩)
      · obtain ⟨code, hold⟩ := (ih hh).mpr hat
        exact ⟨code, List.mem_append_left _ hold⟩
      · obtain ⟨code, hmoved⟩ := (ihother hother).mpr hat
        exact ⟨code, List.mem_append_right _ (List.mem_map.mpr ⟨_, hmoved, rfl⟩)⟩
  -- after a pop there may be fewer marks than errors that were added to halt
  | left h errors warnings below => simp [collects] at hc
  | popped h errors warnings below => simp [collects] at hc

end History

/-! ## Where checking may go on -/

/-- Checking may not go on at a place if a mark stands there or above it. -/
theorem canProceedAt_eq_false_iff {l : Location} :
    x.canProceedAt l = false ↔ ∃ place, (∃ code, (place, code) ∈ x.halts) ∧ place <+: l := by
  rw [canProceedAt, List.all_eq_false]
  constructor
  · rintro ⟨⟨place, code⟩, hmark, habove⟩
    exact ⟨place, ⟨code, hmark⟩, Location.startsWith_iff.mp (by simpa using habove)⟩
  · rintro ⟨place, ⟨code, hmark⟩, habove⟩
    exact ⟨(place, code), hmark, by simpa using Location.startsWith_iff.mpr habove⟩

/-- Nothing halts just if there is a go-ahead everywhere: a mark halts at its own place. -/
theorem canProceed_iff : x.canProceed = true ↔ ∀ l, x.canProceedAt l = true := by
  constructor
  · intro h l
    have hnone : x.halts = [] := List.isEmpty_iff.mp h
    simp [canProceedAt, hnone]
  · intro h
    refine List.isEmpty_iff.mpr (List.eq_nil_iff_forall_not_mem.mpr ?_)
    rintro ⟨l, code⟩ hmark
    have hhalted := canProceedAt_eq_false_iff.mpr ⟨l, ⟨code, hmark⟩, List.prefix_refl l⟩
    rw [h l] at hhalted
    simp at hhalted

/-- Coherent issues without errors have no marks. -/
theorem Coherent.earnest (h : x.Coherent) : x.Earnest := by
  intro hno
  refine List.isEmpty_iff.mpr (List.eq_nil_iff_forall_not_mem.mpr ?_)
  rintro ⟨l, code⟩ hmark
  obtain ⟨e, he, -⟩ := h.marked hmark
  rw [allErrors, hasErrors_eq_false_iff.mp hno] at he
  simp at he

/-- After any history each mark stands beside an error with its code at its very place, no place has
    an empty list of errors, and without errors nothing halts.  If nothing was popped, checking may
    not go on at a place just if an error that halts was added, at a place that the merges have
    moved to it or above it; and nothing halts just if checking may go on everywhere. -/
theorem History.halting (h : History) :
    (∀ l code, (l, code) ∈ h.issues.halts → ∃ e ∈ h.issues.errorsAt l, e.code = code) ∧
      (∀ entry ∈ h.issues.errors, entry.2 ≠ []) ∧
      (h.issues.hasErrors = false → h.issues.canProceed = true) ∧
      (h.collects = true →
        (∀ l, h.issues.canProceedAtAll [l] = false ↔ ∃ place, h.HaltsAt place ∧ place <+: l) ∧
        (h.issues.canProceed = true ↔ ∀ l, h.issues.canProceedAtAll [l] = true)) := by
  have hcoherent := h.coherent
  have hone : ∀ l, h.issues.canProceedAtAll [l] = h.issues.canProceedAt l := by
    intro l
    simp [canProceedAtAll]
  refine ⟨fun l code hmark => ?_, hcoherent.errors.filled, hcoherent.earnest, fun hc => ⟨?_, ?_⟩⟩
  · obtain ⟨e, he, hcode⟩ := hcoherent.marked hmark
    exact ⟨e, hcoherent.errors.mem_under.mpr he, hcode⟩
  · intro l
    rw [hone, canProceedAt_eq_false_iff]
    simp only [History.haltsAt_iff hc]
  · simp only [hone]
    exact canProceed_iff

/-- The list of addresses has two preferred ones.  Its first element was checked apart, from the place
    of the element on, and has no value. -/
def History.element : History :=
  .merge (.addError .empty .multiplePrimaryValues true [.name "emails"])
    (.merge .empty (.addError .empty .missingValue false [.name "value"]) [.index 0])
    [.name "emails"]

/-- The missing value halts what lies below it in the first element of the list, and nothing
    beside it. -/
theorem History.halting_element :
    History.element.collects = true ∧
      History.element.issues.canProceedAtAll
        [[.name "emails", .index 0, .name "value", .name "type"]] = false ∧
      History.element.issues.canProceedAtAll [[.name "emails", .index 1]] = true := by
  have h := History.halting History.element
  refine ⟨rfl, ((h.2.2.2 rfl).1 _).mpr ?_, by decide⟩
  refine ⟨[.name "emails", .index 0, .name "value"], ?_, by decide⟩
  exact .merged _ [.name "emails"] (.merged _ [.index 0] (.here _ _ [.name "value"]))

end Issues

end Scim
