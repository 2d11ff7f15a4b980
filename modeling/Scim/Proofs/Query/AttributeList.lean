import Scim.Proofs.Filter.Canonical
import Scim.Proofs.Issues.Filed
import Scim.Proofs.Text.Trimming
import Scim.Query.AttributeList

/-!
  # Lists of attributes are read entry by entry

  A list is a text with commas, and what counts are the entries between them: cut of the blanks
  around them, and the blank ones left out (`Entries`, `entries_eq_iff`).

    * A list is read just if every entry is, and then it holds what they are read as
      (`parse_eq_ok_iff`).
    * If it is not read, the mistakes of its entries are reported and nothing else (`mistakes`): one
      error for each entry that is no reference, at the index that the entry has among the others
      (`issuesOf_eq`).
    * A reference whose schema the catalog has, and whose URI has no comma, is an entry of its own,
      for its text has neither commas nor blanks.  So a list of such references is read back from its
      text (`parse_text_of_listable`).
-/

namespace Scim

/-! ## References in lists -/

namespace Reference

variable {catalog : Catalog} {r : Reference}

/-- A reference that can stand in a list: the schema of a qualified one is registered, and its URI
    has no comma. -/
def Listable (catalog : Catalog) (r : Reference) : Prop :=
  ∀ u ∈ r.schema?, catalog.knows u.text = true ∧ ',' ∉ u.text.toList

instance (catalog : Catalog) (r : Reference) : Decidable (r.Listable catalog) :=
  inferInstanceAs (Decidable (∀ u ∈ r.schema?, _))

/-- The schema of a reference, if it has one, is in the catalog just as it is. -/
def IsHeld (catalog : Catalog) (r : Reference) : Prop := ∀ u ∈ r.schema?, catalog.Holds u

instance (catalog : Catalog) (r : Reference) : Decidable (r.IsHeld catalog) :=
  inferInstanceAs (Decidable (∀ u ∈ r.schema?, _))

/-- The text of a reference is read as an equal one, whose schema has the casing that the catalog
    has it in. -/
theorem Listable.exists_parse_text (h : r.Listable catalog) :
    ∃ s, parse catalog r.text = .ok s ∧ r.same s = true ∧ (r.IsHeld catalog → s = r) := by
  cases r with
  | plain p =>
    exact ⟨.plain p, parse_eq_ok_plain.mpr rfl, same_self _, fun _ => rfl⟩
  | qualified q =>
    obtain ⟨hknows, -⟩ := h q.schema rfl
    obtain ⟨u, hlookup⟩ := Option.isSome_iff_exists.mp hknows
    have hkey : u.key = q.schema.key := (Catalog.lookup_text hlookup).1
    refine ⟨.qualified ⟨u, q.path⟩, ?_, ?_, ?_⟩
    · refine parse_eq_ok_qualified.mpr ⟨q.schema.text.toList, toList_text_qualified q, ?_⟩
      rw [String.ofList_toList]
      exact hlookup
    · exact Qualified.same_iff.mpr ⟨hkey.symm, rfl⟩
    · -- the catalog finds the schema by its key, and so just as it holds it
      intro hheld
      obtain rfl : q.schema = u := Option.some.inj ((hheld q.schema rfl).symm.trans hlookup)
      rfl

/-- A path has no blanks: its characters are plain. -/
theorem isBlank_of_mem_path {p : Path} {c : Char} (h : c ∈ p.text.toList) :
    Text.isBlank c = false := by
  have hunbroken := Masked.isUnbroken_of_isPlain (isPlain_of_mem_path c h)
  simp only [Masked.isUnbroken, Bool.and_eq_true, Bool.not_eq_true'] at hunbroken
  exact hunbroken.2

/-- Nor has the URI of a schema. -/
theorem isBlank_of_mem_uri {u : SchemaUri} {c : Char} (h : c ∈ u.text.toList) :
    Text.isBlank c = false := by
  have hformed := u.wellFormed
  simp only [SchemaUri.isWellFormed, Bool.and_eq_true, Bool.not_eq_true',
    List.any_eq_false] at hformed
  simpa using hformed.2 c h

/-- The text of a reference has no blanks. -/
theorem isBlank_of_mem_text {c : Char} (h : c ∈ r.text.toList) : Text.isBlank c = false := by
  cases r with
  | plain p => exact isBlank_of_mem_path h
  | qualified q =>
    rw [toList_text_qualified] at h
    -- a character of the URI, the colon, or one of the path
    rcases List.mem_append.mp h with h | h
    · exact isBlank_of_mem_uri h
    · rcases List.mem_cons.mp h with rfl | h
      · decide
      · exact isBlank_of_mem_path h

/-- A path has no commas. -/
theorem comma_not_mem_path (p : Path) : ',' ∉ p.text.toList := by
  intro h
  rcases Path.mem_text h with h | h
  · exact absurd h (by decide)
  · exact absurd h (by decide)

/-- Nor has the text of a reference that can stand in a list. -/
theorem Listable.comma_not_mem_text (h : r.Listable catalog) : ',' ∉ r.text.toList := by
  cases r with
  | plain p => exact comma_not_mem_path p
  | qualified q =>
    rw [toList_text_qualified]
    intro hmem
    rcases List.mem_append.mp hmem with hmem | hmem
    · exact (h q.schema rfl).2 hmem
    · rcases List.mem_cons.mp hmem with hcolon | hmem
      · exact absurd hcolon (by decide)
      · exact comma_not_mem_path q.path hmem

end Reference

namespace AttributeList

variable {catalog : Catalog} {input : String} {l : AttributeList}

/-! ## Entries -/

/-- The entries among pieces of a text: blank pieces are none, and the others are cut of the blanks
    around them. -/
inductive EntriesOf : List (List Char) → List String → Prop
  | nil : EntriesOf [] []
  | blank {piece : List Char} {pieces : List (List Char)} {entries : List String} :
      Text.Trims piece [] → EntriesOf pieces entries → EntriesOf (piece :: pieces) entries
  | entry {piece entry : List Char} {pieces : List (List Char)} {entries : List String} :
      Text.Trims piece entry → entry ≠ [] → EntriesOf pieces entries →
      EntriesOf (piece :: pieces) (String.ofList entry :: entries)

/-- The entries of a text, which are what stands between its commas. -/
def Entries (input : String) (entries : List String) : Prop :=
  ∃ pieces, pieces ≠ [] ∧ (∀ piece ∈ pieces, ',' ∉ piece) ∧
    input.toList = [','].intercalate pieces ∧ EntriesOf pieces entries

/-- What pieces of a text are read as. -/
def entriesAmong (pieces : List (List Char)) : List String :=
  (pieces.map Text.trimBlanks).filterMap fun entry =>
    if entry.isEmpty then none else some (String.ofList entry)

/-- A blank piece is no entry. -/
theorem entriesAmong_blank {piece : List Char} (h : Text.trimBlanks piece = [])
    (pieces : List (List Char)) : entriesAmong (piece :: pieces) = entriesAmong pieces := by
  rw [entriesAmong, List.map_cons, h]
  rfl

/-- Any other piece is one, cut of the blanks around it. -/
theorem entriesAmong_entry {piece : List Char} (h : Text.trimBlanks piece ≠ [])
    (pieces : List (List Char)) : entriesAmong (piece :: pieces) =
      String.ofList (Text.trimBlanks piece) :: entriesAmong pieces := by
  simp [entriesAmong, h]

/-- What pieces are read as are their entries. -/
theorem entriesOf_iff {pieces : List (List Char)} {es : List String} :
    EntriesOf pieces es ↔ entriesAmong pieces = es := by
  constructor
  · -- on the entries as they are derived
    intro h
    induction h with
    | nil => rfl
    | blank htrim _ ih => rw [entriesAmong_blank (Text.trimBlanks_eq_iff.mpr htrim), ih]
    | entry htrim hne _ ih =>
      obtain rfl := Text.trimBlanks_eq_iff.mpr htrim
      rw [entriesAmong_entry hne, ih]
  · -- on the pieces
    rintro rfl
    induction pieces with
    | nil => exact .nil
    | cons piece pieces ih =>
      have htrim : Text.Trims piece (Text.trimBlanks piece) := Text.trimBlanks_eq_iff.mp rfl
      by_cases hblank : Text.trimBlanks piece = []
      · rw [entriesAmong_blank hblank]
        exact .blank (hblank ▸ htrim) ih
      · rw [entriesAmong_entry hblank]
        exact .entry htrim hblank ih

/-- The entries that are read are those of the text. -/
theorem entries_eq_iff {es : List String} : entries input = es ↔ Entries input es := by
  constructor
  · intro h
    refine ⟨Text.splitAt ',' input.toList, Text.splitAt_ne_nil _ _,
      fun piece hpiece => Text.not_mem_of_mem_splitAt hpiece, ?_, entriesOf_iff.mpr h⟩
    rw [Text.splitAt_eq_splitOn, List.intercalate_splitOn]
  · -- splitting at commas takes apart what was joined with them
    rintro ⟨pieces, hne, hcomma, hinput, hentries⟩
    show entriesAmong (Text.splitAt ',' input.toList) = es
    rw [hinput, Text.splitAt_eq_splitOn, List.splitOn_intercalate _ hcomma hne]
    exact entriesOf_iff.mp hentries

/-! ## Mistakes -/

/-- What is wrong with entries, each mistake at the index of its entry, the first of which is
    `first`. -/
def mistakesFrom (first : Nat) (read : List (Except Error Reference)) : List (Location × Error) :=
  (read.zipIdx first).filterMap fun (entry, i) =>
    match entry with
    | .ok _ => none
    | .error e => some (.ofIndex i, e)

@[simp] theorem mistakesFrom_nil (first : Nat) : mistakesFrom first [] = [] := rfl
/-- An entry that is read is no mistake, but it counts for the index of those after it. -/

@[simp] theorem mistakesFrom_ok (first : Nat) (r : Reference) (read : List (Except Error Reference)) :
    mistakesFrom first (.ok r :: read) = mistakesFrom (first + 1) read := rfl

/-- An entry that is not read is a mistake at its index. -/
@[simp] theorem mistakesFrom_error (first : Nat) (e : Error) (read : List (Except Error Reference)) :
    mistakesFrom first (.error e :: read) =
      (.ofIndex first, e) :: mistakesFrom (first + 1) read := rfl

/-- What is wrong with the entries of a list. -/
def mistakes (catalog : Catalog) (entries : List String) : List (Location × Error) :=
  mistakesFrom 0 (entries.map (Reference.parse catalog))

/-- Mistakes that all halt, and no two of which lie at one place. -/
def report (found : List (Location × Error)) : Issues :=
  ⟨found.map fun (l, e) => (l, [e]), [], found.map fun (l, e) => (l, e.code)⟩

/-- An error at a new place is reported behind the others. -/
theorem addError_report {found : List (Location × Error)} {l : Location} (e : Error)
    (h : l ∉ found.map (·.1)) : (report found).addError e false l = report (found ++ [(l, e)]) := by
  -- a place that has no error yet gets an entry of its own
  have hplaces : l ∉ ((report found).errors).map (·.1) := by
    simpa [report, Function.comp_def] using h
  rw [Issues.addError, Filed.add_of_not_mem hplaces]
  simp [report]

/-- Going through the entries adds their mistakes to those that are reported, if these lie before
    the first. -/
theorem foldl_report (read : List (Except Error Reference)) (first : Nat)
    (found : List (Location × Error)) (h : ∀ l ∈ found.map (·.1), ∃ i < first, l = .ofIndex i) :
    (read.zipIdx first).foldl (fun (issues : Issues) (entry, i) =>
      match entry with
      | .ok _ => issues
      | .error e => issues.addError e false (.ofIndex i)) (report found) =
      report (found ++ mistakesFrom first read) := by
  -- on the entries; all places found so far have indices before the next entry's
  induction read generalizing first found with
  | nil => simp
  | cons entry read ih =>
    rw [List.zipIdx_cons, List.foldl_cons]
    have hlater : ∀ l ∈ found.map (·.1), ∃ i < first + 1, l = .ofIndex i := by
      intro l hl
      obtain ⟨i, hi, rfl⟩ := h l hl
      exact ⟨i, by omega, rfl⟩
    cases entry with
    | ok r => exact ih (first + 1) found hlater
    | error e =>
      -- the places found so far have smaller indices
      have hnew : Location.ofIndex first ∉ found.map (·.1) := by
        intro hmem
        obtain ⟨i, hi, heq⟩ := h _ hmem
        simp only [Location.ofIndex, List.cons.injEq, Step.index.injEq, and_true] at heq
        omega
      have hfound : ∀ l ∈ (found ++ [(Location.ofIndex first, e)]).map (·.1),
          ∃ i < first + 1, l = .ofIndex i := by
        intro l hl
        rw [List.map_append, List.mem_append] at hl
        rcases hl with hl | hl
        · exact hlater l hl
        · exact ⟨first, by omega, List.mem_singleton.mp hl⟩
      show List.foldl _ ((report found).addError e false (.ofIndex first)) _ = _
      rw [addError_report e hnew, ih (first + 1) _ hfound, mistakesFrom_error, List.append_assoc]
      rfl

/-- The mistakes are reported, and nothing else. -/
theorem issuesOf_eq (read : List (Except Error Reference)) :
    issuesOf read = report (mistakesFrom 0 read) :=
  foldl_report read 0 [] (by simp)

/-- Errors are reported just if mistakes are found. -/
theorem hasErrors_report {found : List (Location × Error)} :
    (report found).hasErrors = false ↔ found = [] := by
  simp [Issues.hasErrors, report]

/-- Nothing is wrong just if all entries are read. -/
theorem mistakesFrom_eq_nil_iff {first : Nat} {read : List (Except Error Reference)} :
    mistakesFrom first read = [] ↔ ∃ refs : List Reference, read = refs.map .ok := by
  induction read generalizing first with
  | nil => exact iff_of_true rfl ⟨[], rfl⟩
  | cons entry read ih =>
    cases entry with
    | ok r =>
      rw [mistakesFrom_ok, ih]
      constructor
      · rintro ⟨refs, rfl⟩
        exact ⟨r :: refs, rfl⟩
      · rintro ⟨refs, hrefs⟩
        cases refs with
        | nil => cases hrefs
        | cons s refs => exact ⟨refs, (List.cons.inj hrefs).2⟩
    -- a mistake on the one side, and on the other an entry that is not read
    | error e =>
      refine iff_of_false (List.cons_ne_nil _ _) ?_
      rintro ⟨refs, hrefs⟩
      cases refs <;> simp at hrefs

/-- The errors of a report are the mistakes. -/
theorem allErrors_report {found : List (Location × Error)} : (report found).allErrors = found := by
  simp [Issues.allErrors, Filed.all, report, List.flatMap_map]

/-- The mistakes are the errors of the entries that are not read, each at the index of its entry. -/
theorem mem_mistakes {es : List String} {loc : Location} {e : Error} :
    (loc, e) ∈ mistakes catalog es ↔ ∃ i entry, es[i]? = some entry ∧
      Reference.parse catalog entry = .error e ∧ loc = .ofIndex i := by
  simp only [mistakes, mistakesFrom, List.mem_filterMap, Prod.exists, List.mem_zipIdx_iff_getElem?,
    List.getElem?_map, Option.map_eq_some_iff]
  constructor
  · rintro ⟨result, i, ⟨entry, hentry, rfl⟩, h⟩
    cases hread : Reference.parse catalog entry with
    | ok r => simp [hread] at h
    | error e' =>
      simp only [hread, Option.some.injEq, Prod.mk.injEq] at h
      exact ⟨i, entry, hentry, hread.trans (by rw [h.2]), h.1.symm⟩
  · rintro ⟨i, entry, hentry, hread, rfl⟩
    exact ⟨_, i, ⟨entry, hentry, rfl⟩, by rw [hread]⟩

/-- The mistakes lie at different indices. -/
theorem nodup_mistakesFrom {first : Nat} {read : List (Except Error Reference)} :
    ((mistakesFrom first read).map (·.1)).Nodup := by
  -- the places are among all indices, and these are in ascending order
  have hsub : ((mistakesFrom first read).map (·.1)).Sublist
      ((List.range' first read.length).map Location.ofIndex) := by
    induction read generalizing first with
    | nil => exact List.Sublist.slnil
    | cons entry read ih =>
      rw [List.length_cons, List.range'_succ, List.map_cons]
      cases entry with
      | ok r => exact ih.cons _
      | error e => exact ih.cons_cons _
  refine hsub.nodup (List.Nodup.map ?_ List.nodup_range')
  intro i j h
  simpa [Location.ofIndex] using h

/-! ## Lists -/

/-- A list is read just if every entry is, and holds what they are read as. -/
theorem parse_eq_ok_iff : parse catalog input = .ok l ↔
    (entries input).map (Reference.parse catalog) = l.map .ok := by
  unfold parse
  dsimp only
  rw [issuesOf_eq]
  -- a list is read just if nothing is reported
  cases hread : (report (mistakesFrom 0 ((entries input).map (Reference.parse catalog)))).hasErrors with
  | false =>
    obtain ⟨refs, hrefs⟩ := mistakesFrom_eq_nil_iff.mp (hasErrors_report.mp hread)
    rw [hrefs, if_neg (by decide)]
    -- all entries are read, so all are kept
    have hkept : (refs.map Except.ok : List (Except Error Reference)).filterMap (·.toOption) = refs := by
      simp [List.filterMap_map, Except.toOption]
    rw [hkept, Except.ok.injEq]
    constructor
    · rintro rfl
      rfl
    · intro h
      exact List.map_injective_iff.mpr (fun _ _ h => Except.ok.inj h) h
  | true =>
    rw [if_pos rfl]
    refine iff_of_false (by simp) fun h => ?_
    rw [hasErrors_report.mpr (mistakesFrom_eq_nil_iff.mpr ⟨l, h⟩)] at hread
    cases hread

/-- What is reported of a list that is not read. -/
theorem parse_eq_error {issues : Issues} (h : parse catalog input = .error issues) :
    issues = report (mistakes catalog (entries input)) := by
  unfold parse at h
  dsimp only at h
  rw [issuesOf_eq] at h
  split at h
  · exact (Except.error.inj h).symm
  · cases h

/-- The text of a list joins the texts of its references with commas. -/
theorem toList_text (l : AttributeList) :
    (text l).toList = [','].intercalate (l.map fun r => r.text.toList) := by
  have hcomma : ",".toList = [','] := by decide +kernel
  rw [text, String.toList_intercalate, List.map_map, hcomma]
  rfl

/-- The entries of the text of a list are the texts of its references. -/
theorem entries_text (h : ∀ r ∈ l, r.Listable catalog) : Entries (text l) (l.map Reference.text) := by
  have hentry : ∀ r : Reference, Text.Trims r.text.toList r.text.toList := fun r =>
    Text.trimBlanks_eq_iff.mp (Text.trimBlanks_eq_self fun _ => Reference.isBlank_of_mem_text)
  cases l with
  -- the text of no references is empty, and its one piece is blank
  | nil =>
    refine ⟨[[]], by simp, by simp, rfl, .blank ?_ .nil⟩
    exact Text.trimBlanks_eq_iff.mp rfl
  | cons r l =>
    refine ⟨_, by simp, ?_, toList_text (r :: l), ?_⟩
    · intro piece hpiece
      obtain ⟨s, hs, rfl⟩ := List.mem_map.mp hpiece
      exact (h s hs).comma_not_mem_text
    · generalize r :: l = refs
      induction refs with
      | nil => exact .nil
      | cons s refs ih =>
        have hone := EntriesOf.entry (hentry s) s.toList_text_ne_nil ih
        rwa [String.ofList_toList] at hone

/-- The texts of references are read as equal references. -/
theorem exists_parse_texts (h : ∀ r ∈ l, r.Listable catalog) :
    ∃ m : AttributeList, (l.map Reference.text).map (Reference.parse catalog) = m.map .ok ∧
      same l m = true ∧ ((∀ r ∈ l, r.IsHeld catalog) → m = l) := by
  induction l with
  | nil => exact ⟨[], rfl, rfl, fun _ => rfl⟩
  | cons r l ih =>
    obtain ⟨hr, hl⟩ := List.forall_mem_cons.mp h
    obtain ⟨s, hs, hsame, heq⟩ := hr.exists_parse_text
    obtain ⟨m, hm, hsames, heqs⟩ := ih hl
    refine ⟨s :: m, ?_, ?_, ?_⟩
    · rw [List.map_cons, List.map_cons, hs, hm, List.map_cons]
    · rw [same, hsame, hsames]
      rfl
    · intro hheld
      obtain ⟨hr, hl⟩ := List.forall_mem_cons.mp hheld
      rw [heq hr, heqs hl]

/-- A list is read back from its text. -/
theorem exists_parse_text (h : ∀ r ∈ l, r.Listable catalog) :
    ∃ m, parse catalog (text l) = .ok m ∧ same l m = true ∧
      ((∀ r ∈ l, r.IsHeld catalog) → m = l) := by
  simp only [parse_eq_ok_iff, entries_eq_iff.mpr (entries_text h)]
  exact exists_parse_texts h

/-! ## All of it -/

/-- How a list is read that has the given entries. -/
structure ReadByEntries (catalog : Catalog) (input : String) (entries : List String) : Prop where
  /-- They are what stands between the commas of the text. -/
  entered : Entries input entries
  /-- The list is read just if every entry is. -/
  succeeds : (∃ l, parse catalog input = .ok l) ↔
    ∀ entry ∈ entries, ∃ r, Reference.parse catalog entry = .ok r
  /-- It holds what the entries are read as, in their order. -/
  holds : ∀ l, parse catalog input = .ok l ↔ entries.map (Reference.parse catalog) = l.map .ok
  /-- The errors are those of the entries, each at the index of its entry. -/
  errors : ∀ issues, parse catalog input = .error issues → ∀ loc e, (loc, e) ∈ issues.allErrors ↔
    ∃ i entry, entries[i]? = some entry ∧ Reference.parse catalog entry = .error e ∧
      loc = .ofIndex i
  /-- No index has more than one. -/
  once : ∀ issues, parse catalog input = .error issues → (issues.allErrors.map (·.1)).Nodup
  warnings : ∀ issues, parse catalog input = .error issues → issues.allWarnings = []

/-- Every text is read by the entries that it has. -/
theorem readByEntries (catalog : Catalog) (input : String) :
    ReadByEntries catalog input (entries input) where
  entered := entries_eq_iff.mp rfl
  succeeds := by
    simp only [parse_eq_ok_iff]
    constructor
    · rintro ⟨l, hl⟩ entry hentry
      have hmem : Reference.parse catalog entry ∈ (l.map .ok : List (Except Error Reference)) :=
        hl ▸ List.mem_map_of_mem hentry
      obtain ⟨r, -, hr⟩ := List.mem_map.mp hmem
      exact ⟨r, hr.symm⟩
    · intro h
      -- on the entries, whatever text they are from
      generalize entries input = es at h
      induction es with
      | nil => exact ⟨[], rfl⟩
      | cons entry es ih =>
        obtain ⟨⟨r, hr⟩, hes⟩ := List.forall_mem_cons.mp h
        obtain ⟨l, hl⟩ := ih hes
        exact ⟨r :: l, by rw [List.map_cons, hr, hl, List.map_cons]⟩
  holds _ := parse_eq_ok_iff
  errors issues h loc e := by
    rw [parse_eq_error h, allErrors_report, mem_mistakes]
  once issues h := by
    rw [parse_eq_error h, allErrors_report]
    exact nodup_mistakesFrom
  warnings issues h := by
    rw [parse_eq_error h]
    rfl

/-- References are read back from the text of their list, and any text is read entry by entry. -/
theorem parse_by_entries (catalog : Catalog) :
    (∀ l : AttributeList, (∀ r ∈ l, r.Listable catalog) →
      ∃ m, parse catalog (text l) = .ok m ∧ same l m = true ∧
        ((∀ r ∈ l, r.IsHeld catalog) → m = l)) ∧
      ∀ input, ∃ entries, ReadByEntries catalog input entries :=
  ⟨fun _ h => exists_parse_text h, fun input => ⟨_, readByEntries catalog input⟩⟩

/-- A catalog of one schema, with points and a colon in its URI. -/
def parcelCatalog : Catalog := ⟨[⟨"urn:post:2.0:Parcel", false, by decide +kernel⟩]⟩

/-- The sender of a parcel, by a URI in another casing, and a plain reference. -/
def senderAndWeight : AttributeList :=
  [.qualified ⟨⟨"URN:Post:2.0:parcel", false, by decide +kernel⟩,
      ⟨⟨"sender", by decide +kernel⟩, some ⟨"$ref", by decide +kernel⟩⟩⟩,
    .plain ⟨⟨"weight", by decide +kernel⟩, none⟩]

/-- The sender comes back with the registered URI.  In the other text the reference that is none has
    the index 1, for the blank entry before it does not count. -/
theorem parse_by_entries_senderAndWeight :
    (∀ r ∈ senderAndWeight, r.Listable parcelCatalog) ∧
      text senderAndWeight = "URN:Post:2.0:parcel:sender.$ref,weight" ∧
      (∃ m, parse parcelCatalog (text senderAndWeight) = .ok m ∧ same senderAndWeight m = true ∧
        text m = "urn:post:2.0:Parcel:sender.$ref,weight") ∧
      ∃ issues, parse parcelCatalog " weight, ,urn:Post:3.0:sender" = .error issues ∧
        (Location.ofIndex 1, Error.unknownSchema "urn:Post:3.0") ∈ issues.allErrors := by
  have hlistable : ∀ r ∈ senderAndWeight, r.Listable parcelCatalog := by decide +kernel
  obtain ⟨hback, hread⟩ := parse_by_entries parcelCatalog
  obtain ⟨m, hm, hsame, -⟩ := hback senderAndWeight hlistable
  refine ⟨hlistable, by decide +kernel, ⟨m, hm, hsame, ?_⟩, ?_⟩
  · have htext : (parse parcelCatalog (text senderAndWeight)).toOption.map text =
        some "urn:post:2.0:Parcel:sender.$ref,weight" := by
      decide +kernel
    rw [hm] at htext
    exact Option.some.inj htext
  · obtain ⟨es, hes⟩ := hread " weight, ,urn:Post:3.0:sender"
    have hentries : es = ["weight", "urn:Post:3.0:sender"] := by
      rw [← entries_eq_iff.mpr hes.entered]
      decide +kernel
    cases hparse : parse parcelCatalog " weight, ,urn:Post:3.0:sender" with
    | ok l =>
      have hnone : (parse parcelCatalog " weight, ,urn:Post:3.0:sender").toOption.isNone = true := by
        decide +kernel
      simp [hparse, Except.toOption] at hnone
    | error issues =>
      refine ⟨issues, rfl, (hes.errors issues hparse _ _).mpr ⟨1, "urn:Post:3.0:sender", ?_, ?_, rfl⟩⟩
      · rw [hentries]
        rfl
      · decide +kernel

end AttributeList

end Scim
