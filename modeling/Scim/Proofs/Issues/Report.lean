import Mathlib.Data.List.Induction
import Scim.Issues.Report
import Scim.Proofs.Issues.Halting
import Scim.Proofs.Issues.Within
import Scim.Proofs.Json.Paths

/-!
  # The report loses nothing

  A report is made by filing lists into an object, one after the other, each under the steps to its
  place and a key for its kind.  What is filed before is replaced where it is in the way, so it is to
  be shown that nothing ever is.

  Filing changes what is met on the way to the place (`at?_fileInto_above`) and nothing beside it
  (`at?_fileInto_of_apart`).  As long as no list lies above another (`Beside`), every path
  leads to a list, to an object above one, or nowhere (`Tells`).  One filing more keeps that
  (`Tells.fileInto`), and lists of different places that are shown alike are put behind each other.
-/

namespace Scim

namespace Issues

variable {x : Issues} {members : List (String × Json)} {loc : Location} {key : String} {items : List Json}
  {path : List String}

/-! ## One list -/

/-- At its place a list is put behind what is filed there under its key. -/
theorem fileInto_nil (members : List (String × Json)) (key : String) (items : List Json) :
    fileInto members [] key items =
      Json.insertMember key (.array ((Json.object members).itemsAt [key] ++ items)) members := by
  rw [fileInto, Json.itemsAt, Json.at?, Json.member?]
  -- what is there already counts only if it is a list
  cases members.lookup key with
  | none => rfl
  | some old => cases old <;> rfl

/-- Further down it is filed into the object under the first step, or into a new one. -/
theorem fileInto_cons (members : List (String × Json)) (step : Step) (rest : Location)
    (key : String) (items : List Json) :
    fileInto members (step :: rest) key items =
      Json.insertMember step.text
        (.object (fileInto ((Json.object members).membersAt [step.text]) rest key items))
        members := by
  rw [fileInto, Json.membersAt, Json.at?, Json.member?]
  cases members.lookup step.text with
  | none => rfl
  | some old => cases old <;> rfl

/-- On the way to the place, the list is filed into the object that is there, or into a new one. -/
theorem at?_fileInto_above (members : List (String × Json)) (above rest : Location) (key : String)
    (items : List Json) :
    (Json.object (fileInto members (above ++ rest) key items)).at? (above.map Step.text) =
      some (.object (fileInto ((Json.object members).membersAt (above.map Step.text)) rest key
        items)) := by
  induction above generalizing members with
  | nil => rfl
  | cons step above ih =>
    rw [List.cons_append, fileInto_cons, List.map_cons]
    show (List.lookup step.text _).bind _ = _
    rw [Json.lookup_insertMember, if_pos rfl]
    show Json.at? _ _ = _
    rw [ih, Json.membersAt_membersAt]
    rfl

/-- The list is put behind what was filed under the same steps and key. -/
theorem at?_fileInto_self (members : List (String × Json)) (loc : Location) (key : String)
    (items : List Json) :
    (Json.object (fileInto members loc key items)).at? (loc.map Step.text ++ [key]) =
      some (.array ((Json.object members).itemsAt (loc.map Step.text ++ [key]) ++ items)) := by
  have habove := at?_fileInto_above members loc [] key items
  rw [List.append_nil] at habove
  rw [Json.at?_append, habove, fileInto_nil, Json.itemsAt_membersAt]
  show (List.lookup key _).bind _ = _
  rw [Json.lookup_insertMember, if_pos rfl]
  rfl

/-- What lies neither on the way nor below stays as it was. -/
theorem at?_fileInto_of_apart (h : ¬path <+: loc.map Step.text ++ [key])
    (h' : ¬loc.map Step.text ++ [key] <+: path) :
    (Json.object (fileInto members loc key items)).at? path = (Json.object members).at? path := by
  -- down along the place, as far as the path goes with it
  induction loc generalizing members path with
  | nil =>
    cases path with
    | nil => exact absurd List.nil_prefix h
    | cons k rest =>
      have hk : k ≠ key := by
        rintro rfl
        exact h' (List.prefix_append [k] rest)
      rw [fileInto_nil]
      show (List.lookup k _).bind _ = (List.lookup k members).bind _
      rw [Json.lookup_insertMember, if_neg hk]
  | cons step loc ih =>
    cases path with
    | nil => exact absurd List.nil_prefix h
    | cons k rest =>
      rw [fileInto_cons]
      show (List.lookup k _).bind _ = (List.lookup k members).bind _
      rw [Json.lookup_insertMember]
      by_cases hk : k = step.text
      · -- both go on below the same key
        subst hk
        rw [List.map_cons, List.cons_append, List.cons_prefix_cons] at h h'
        have hrest : ¬rest <+: loc.map Step.text ++ [key] := fun hpre => h ⟨rfl, hpre⟩
        have hrest' : ¬loc.map Step.text ++ [key] <+: rest := fun hpre => h' ⟨rfl, hpre⟩
        rw [if_pos rfl]
        show Json.at? _ rest = _
        rw [ih hrest hrest']
        -- the path goes on, so it makes no difference whether an object was there before
        cases rest with
        | nil => exact absurd List.nil_prefix hrest
        | cons k rest =>
          rw [Json.at?_membersAt]
          rfl
      · rw [if_neg hk]

/-- Filing keeps the members in the order of their keys. -/
theorem ordered_fileInto (h : Json.Ordered members) (loc : Location) (key : String)
    (items : List Json) : Json.Ordered (fileInto members loc key items) := by
  cases loc with
  | nil =>
    rw [fileInto_nil]
    exact h.insertMember key _
  | cons step rest =>
    rw [fileInto_cons]
    exact h.insertMember step.text _

/-! ## All lists -/

/-- A list that is filed. -/
structure Filing where
  loc : Location
  key : String
  items : List Json

/-- The keys that lead to the list. -/
def Filing.way (f : Filing) : List String := f.loc.map Step.text ++ [f.key]

/-- The object that lists are filed into. -/
def file (filings : List Filing) : Json :=
  .object (filings.foldl (fun members f => fileInto members f.loc f.key f.items) [])

/-- What is filed under one way, in the order of the lists. -/
def gathered (filings : List Filing) (path : List String) : List Json :=
  (filings.filter (·.way = path)).flatMap Filing.items

/-- No list lies above another. -/
def Beside (filings : List Filing) : Prop :=
  ∀ f ∈ filings, ∀ g ∈ filings, f.way <+: g.way → f.way = g.way

/-- What lies above one list, and not on the way to another, is apart from that one. -/
theorem Beside.apart {filings : List Filing} (h : Beside filings) {f g : Filing} (hf : f ∈ filings)
    (hg : g ∈ filings) (hpre : path <+: g.way) (hne : path ≠ g.way)
    (hway : ¬path <+: f.loc.map Step.text) : ¬path <+: f.way ∧ ¬f.way <+: path := by
  have hapart : ¬path <+: f.way := by
    intro hfway
    -- the path is all of the way to the one list, or ends on it
    rcases List.prefix_concat_iff.mp hfway with heq | hfway
    · have hself : path = f.way := heq
      exact hne (hself.trans (h f hf g hg (hself ▸ hpre)))
    · exact hway hfway
  refine ⟨hapart, ?_⟩
  intro hfway
  have hsame := h f hf g hg (hfway.trans hpre)
  exact hapart (hsame ▸ hpre)

/-- Where each path leads to: to a list, to an object above one, or nowhere. -/
structure Tells (filings : List Filing) (report : Json) : Prop where
  listed : ∀ f ∈ filings, report.at? f.way = some (.array (gathered filings f.way))
  above : ∀ path, path = [] ∨ (∃ f ∈ filings, path <+: f.way ∧ path ≠ f.way) →
    ∃ members, report.at? path = some (.object members) ∧ Json.Ordered members
  nowhere : ∀ path, path ≠ [] → (∀ f ∈ filings, ¬path <+: f.way) → report.at? path = none

/-- Nothing is gathered where nothing is filed. -/
theorem gathered_eq_nil {filings : List Filing} (h : ∀ f ∈ filings, f.way ≠ path) :
    gathered filings path = [] := by
  have hnone : (filings.filter (·.way = path)) = [] :=
    List.filter_eq_nil_iff.mpr fun f hf => by simpa using h f hf
  rw [gathered, hnone, List.flatMap_nil]

/-- What is gathered of more lists comes behind. -/
theorem gathered_append (filings more : List Filing) (path : List String) :
    gathered (filings ++ more) path = gathered filings path ++ gathered more path := by
  rw [gathered, List.filter_append, List.flatMap_append, ← gathered, ← gathered]

/-- One list more adds its items where it is filed. -/
theorem gathered_concat (filings : List Filing) (f : Filing) (path : List String) :
    gathered (filings ++ [f]) path =
      gathered filings path ++ if f.way = path then f.items else [] := by
  rw [gathered_append]
  by_cases h : f.way = path <;> simp [gathered, h]

namespace Tells

variable {filings : List Filing} {report : Json}

/-- A path leads to a list, to an object above one, or nowhere. -/
theorem cases (h : Tells filings report) (path : List String) :
    (∃ f ∈ filings, path = f.way ∧ report.at? path = some (.array (gathered filings path))) ∨
      ((path = [] ∨ ∃ f ∈ filings, path <+: f.way ∧ path ≠ f.way) ∧
        ∃ members, report.at? path = some (.object members) ∧ Json.Ordered members) ∨
      (∀ f ∈ filings, ¬path <+: f.way) ∧ report.at? path = none := by
  by_cases hlisted : ∃ f ∈ filings, path = f.way
  · obtain ⟨f, hf, rfl⟩ := hlisted
    exact .inl ⟨f, hf, rfl, h.listed f hf⟩
  · by_cases habove : path = [] ∨ ∃ f ∈ filings, path <+: f.way
    · have hstrict : path = [] ∨ ∃ f ∈ filings, path <+: f.way ∧ path ≠ f.way := by
        refine habove.imp_right ?_
        rintro ⟨f, hf, hpre⟩
        exact ⟨f, hf, hpre, fun heq => hlisted ⟨f, hf, heq⟩⟩
      exact .inr (.inl ⟨hstrict, h.above path hstrict⟩)
    · rw [not_or, not_exists] at habove
      have hnone : ∀ f ∈ filings, ¬path <+: f.way := fun f hf hpre => habove.2 f ⟨hf, hpre⟩
      exact .inr (.inr ⟨hnone, h.nowhere path habove.1 hnone⟩)

/-- The members of any object in a report have the order of their keys. -/
theorem ordered_membersAt (h : Tells filings report) (path : List String) :
    Json.Ordered (report.membersAt path) := by
  rw [Json.membersAt]
  rcases h.cases path with ⟨f, hf, -, hlist⟩ | ⟨-, members, hobject, hordered⟩ | ⟨-, hnone⟩
  · rw [hlist]
    exact List.Pairwise.nil
  · rw [hobject]
    exact hordered
  · rw [hnone]
    exact List.Pairwise.nil

/-- What a path leads to as a list is what was gathered there. -/
theorem itemsAt_eq (h : Tells filings report) (path : List String) :
    report.itemsAt path = gathered filings path := by
  rw [Json.itemsAt]
  rcases h.cases path with ⟨f, hf, -, hlist⟩ | ⟨-, members, hobject, hordered⟩ | ⟨hnot, hnone⟩
  · rw [hlist]
  · rw [hobject, gathered_eq_nil]
    rintro f hf rfl
    rw [h.listed f hf] at hobject
    cases hobject
  · rw [hnone, gathered_eq_nil]
    rintro f hf rfl
    exact hnot f hf (List.prefix_refl f.way)

/-- One list more. -/
theorem fileInto {f : Filing} (h : Tells filings (.object members))
    (hbeside : Beside (filings ++ [f])) :
    Tells (filings ++ [f]) (.object (Issues.fileInto members f.loc f.key f.items)) := by
  have hself : (Json.object (Issues.fileInto members f.loc f.key f.items)).at? f.way =
      some (.array (gathered filings f.way ++ f.items)) := by
    rw [← h.itemsAt_eq]
    exact at?_fileInto_self members f.loc f.key f.items
  have hlast : f ∈ filings ++ [f] := List.mem_append_right _ List.mem_cons_self
  constructor
  -- the new list is put behind those shown alike, and the others stay
  case listed =>
    intro g hg
    rw [gathered_concat]
    by_cases hsame : f.way = g.way
    · rw [if_pos hsame, ← hsame, hself]
    · have hold : g ∈ filings := by
        rcases List.mem_append.mp hg with hold | hnew
        · exact hold
        · rw [List.mem_singleton.mp hnew] at hsame
          exact absurd rfl hsame
      have hapart : ¬g.way <+: f.way := fun hpre => hsame (hbeside g hg f hlast hpre).symm
      have hapart' : ¬f.way <+: g.way := fun hpre => hsame (hbeside f hlast g hg hpre)
      rw [if_neg hsame, List.append_nil, at?_fileInto_of_apart hapart hapart']
      exact h.listed g hold
  case above =>
    intro path hpath
    -- above the new list, or above another one
    by_cases hway : path <+: f.loc.map Step.text
    · obtain ⟨above, ⟨rest, hrest⟩, rfl⟩ := List.prefix_map_iff.mp hway
      rw [← hrest, at?_fileInto_above]
      exact ⟨_, rfl, ordered_fileInto (h.ordered_membersAt _) rest f.key f.items⟩
    · obtain ⟨g, hg, hpre, hne⟩ : ∃ g ∈ filings ++ [f], path <+: g.way ∧ path ≠ g.way := by
        refine hpath.resolve_left ?_
        rintro rfl
        exact hway List.nil_prefix
      -- the way to the list just filed ends there or beside the path
      obtain ⟨hapart, hapart'⟩ := hbeside.apart hlast hg hpre hne hway
      have hold : g ∈ filings := by
        rcases List.mem_append.mp hg with hold | hnew
        · exact hold
        · rw [List.mem_singleton.mp hnew] at hpre
          exact absurd hpre hapart
      rw [at?_fileInto_of_apart hapart hapart']
      exact h.above path (.inr ⟨g, hold, hpre, hne⟩)
  case nowhere =>
    intro path hne hnone
    -- nothing lies below a list, nor where nothing was before
    by_cases hbelow : f.way <+: path
    · obtain ⟨rest, rfl⟩ := hbelow
      refine Json.at?_append_of_array hself ?_
      rintro rfl
      rw [List.append_nil] at hnone
      exact hnone f hlast (List.prefix_refl f.way)
    · rw [at?_fileInto_of_apart (hnone f hlast) hbelow]
      exact h.nowhere path hne fun g hg => hnone g (List.mem_append_left _ hg)

end Tells

/-- Among fewer lists still none lies above another. -/
theorem Beside.of_append {filings more : List Filing} (h : Beside (filings ++ more)) :
    Beside filings :=
  fun f hf g hg => h f (List.mem_append_left _ hf) g (List.mem_append_left _ hg)

/-- Lists of which none lies above another are all told of. -/
theorem tells_file {filings : List Filing} (h : Beside filings) : Tells filings (file filings) := by
  -- on the lists in the order in which they are filed: the last one is added to what all others
  -- tell
  induction filings using List.reverseRecOn with
  | nil =>
    refine ⟨fun f hf => absurd hf List.not_mem_nil, ?_, ?_⟩
    · rintro path (rfl | ⟨f, hf, -⟩)
      · exact ⟨[], rfl, List.Pairwise.nil⟩
      · exact absurd hf List.not_mem_nil
    · intro path hne _
      cases path with
      | nil => exact absurd rfl hne
      | cons key rest => rfl
  | append_singleton filings f ih =>
    have hfile : file (filings ++ [f]) = .object (fileInto
        (filings.foldl (fun members f => fileInto members f.loc f.key f.items) []) f.loc f.key
        f.items) := by
      rw [file, List.foldl_append]
      rfl
    rw [hfile]
    exact (ih h.of_append).fileInto h

/-! ## The lists of a collection -/

/-- The lists of issues in the order in which they are filed. -/
def filings (x : Issues) : List Filing :=
  x.errors.map (fun entry => ⟨entry.1, "_errors", entry.2.map errorJson⟩) ++
    x.warnings.map fun entry => ⟨entry.1, "_warnings", entry.2.map warningJson⟩

/-- A report files the lists of errors, and then those of warnings. -/
theorem toJson_eq (x : Issues) : x.toJson = file x.filings := by
  show Json.object _ = Json.object _
  rw [filings, List.foldl_append, List.foldl_map, List.foldl_map]

/-- The keys of the two kinds of lists. -/
def listKeys : List String := ["_errors", "_warnings"]

/-- No step to an issue is the name of such a key. -/
def Named (x : Issues) : Prop := ∀ l ∈ x.places, ∀ key ∈ listKeys, Step.name key ∉ l

/-- An index is not shown as the key of a list: it is shown in digits. -/
theorem text_not_mem_listKeys {step : Step} (h : ∀ key ∈ listKeys, step ≠ .name key) :
    step.text ∉ listKeys := by
  intro hmem
  cases step with
  | name s => exact h s hmem rfl
  | index n =>
    -- both keys start with a character that is no digit
    have hdigits : ∀ c ∈ (toString n).toList, c.isDigit = true := by
      intro c hc
      rw [Nat.toString_eq_repr, Nat.toList_repr] at hc
      exact Nat.isDigit_of_mem_toDigits (by decide) (by decide) hc
    have hfirst : ∀ key ∈ listKeys, '_' ∈ key.toList := by decide
    exact absurd (hdigits '_' (hfirst _ hmem)) (by decide)

/-- Each list that is filed has one of the two keys, and lies at a place. -/
theorem mem_filings {f : Filing} (h : f ∈ x.filings) :
    f.key ∈ listKeys ∧ f.loc ∈ x.places := by
  rcases List.mem_append.mp h with h | h
  · obtain ⟨entry, hentry, rfl⟩ := List.mem_map.mp h
    exact ⟨List.mem_cons_self, mem_places.mpr (.inl (List.mem_map_of_mem hentry))⟩
  · obtain ⟨entry, hentry, rfl⟩ := List.mem_map.mp h
    exact ⟨List.mem_cons_of_mem _ List.mem_cons_self,
      mem_places.mpr (.inr (.inl (List.mem_map_of_mem hentry)))⟩

/-- No step to a place is shown as the key of a list. -/
theorem Named.not_mem_steps (h : x.Named) {f : Filing} (hf : f ∈ x.filings) {key : String}
    (hkey : key ∈ listKeys) : key ∉ f.loc.map Step.text := by
  intro hmem
  obtain ⟨step, hstep, rfl⟩ := List.mem_map.mp hmem
  refine text_not_mem_listKeys (fun name hname => ?_) hkey
  rintro rfl
  exact h f.loc (mem_filings hf).2 name hname hstep

/-- A path that ends in the key of a list leads to that list or nowhere. -/
theorem Named.prefix_way (h : x.Named) {f : Filing} (hf : f ∈ x.filings) {path : List String}
    {key : String} (hkey : key ∈ listKeys) (hpre : path ++ [key] <+: f.way) :
    path ++ [key] = f.way := by
  rcases List.prefix_concat_iff.mp hpre with heq | hpre
  · exact heq
  · have hmem : key ∈ path ++ [key] := List.mem_append_right _ List.mem_cons_self
    exact absurd (hpre.mem hmem) (h.not_mem_steps hf hkey)

/-- So no list lies above another. -/
theorem Named.beside (h : x.Named) : Beside x.filings :=
  fun _ hf _ hg hpre => h.prefix_way hg (mem_filings hf).1 hpre

/-! ## What is gathered -/

/-- An error is shown by its code and its message. -/
theorem errorJson_eq (e : Error) :
    errorJson e = .object [("code", .integer e.code), ("error", .string e.message)] := by
  have hne : "error" ≠ "code" := by decide
  have hnot : ¬"error" < "code" := by decide
  simp [errorJson, Json.ofMembers, Json.sortMembers, Json.insertMember, hne, hnot]

/-- And so is a warning. -/
theorem warningJson_eq (w : Warning) :
    warningJson w = .object [("code", .integer w.code), ("warning", .string w.message)] := by
  have hne : "warning" ≠ "code" := by decide
  have hnot : ¬"warning" < "code" := by decide
  simp [warningJson, Json.ofMembers, Json.sortMembers, Json.insertMember, hne, hnot]

/-- The code and the message of each error whose steps are shown as the keys of a path, in the order
    of the collection. -/
def shownErrors (x : Issues) (path : List String) : List Json :=
  (x.allErrors.filter fun found => found.1.map Step.text = path).map fun found =>
    .object [("code", .integer found.2.code), ("error", .string found.2.message)]

/-- The code and the message of each warning whose steps are shown as the keys of a path, in the
    order of the collection. -/
def shownWarnings (x : Issues) (path : List String) : List Json :=
  (x.allWarnings.filter fun found => found.1.map Step.text = path).map fun found =>
    .object [("code", .integer found.2.code), ("warning", .string found.2.message)]

/-- Of lists under one key, that is gathered what lies at places shown alike. -/
theorem gathered_map {α : Type} (filed : Filed α) (shown : α → Json) (path : List String) :
    gathered (filed.map fun entry => ⟨entry.1, key, entry.2.map shown⟩) (path ++ [key]) =
      (filed.all.filter fun found => found.1.map Step.text = path).map fun found =>
        shown found.2 := by
  induction filed with
  | nil => rfl
  | cons entry filed ih =>
    obtain ⟨l, items⟩ := entry
    rw [Filed.all_cons, List.filter_append, List.map_append, ← ih, List.filter_map]
    -- the whole entry is gathered, or nothing of it
    by_cases hl : l.map Step.text = path
    · simp [gathered, Filing.way, hl, Function.comp_def]
    · simp [gathered, Filing.way, hl, Function.comp_def]

/-- Under the key of errors the errors are gathered. -/
theorem gathered_errors (x : Issues) (path : List String) :
    gathered x.filings (path ++ ["_errors"]) = shownErrors x path := by
  have hwarnings : gathered (x.warnings.map fun entry =>
      ⟨entry.1, "_warnings", entry.2.map warningJson⟩) (path ++ ["_errors"]) = [] := by
    refine gathered_eq_nil fun f hf => ?_
    obtain ⟨entry, -, rfl⟩ := List.mem_map.mp hf
    simp [Filing.way]
  rw [filings, gathered_append, gathered_map, hwarnings, List.append_nil]
  simp only [shownErrors, errorJson_eq, allErrors]

/-- And under the key of warnings the warnings. -/
theorem gathered_warnings (x : Issues) (path : List String) :
    gathered x.filings (path ++ ["_warnings"]) = shownWarnings x path := by
  have herrors : gathered (x.errors.map fun entry =>
      ⟨entry.1, "_errors", entry.2.map errorJson⟩) (path ++ ["_warnings"]) = [] := by
    refine gathered_eq_nil fun f hf => ?_
    obtain ⟨entry, -, rfl⟩ := List.mem_map.mp hf
    simp [Filing.way]
  rw [filings, gathered_append, gathered_map, herrors, List.nil_append]
  simp only [shownWarnings, warningJson_eq, allWarnings]

/-- Whether there is an issue at a place. -/
def Lies (x : Issues) (l : Location) : Prop :=
  (∃ e, (l, e) ∈ x.allErrors) ∨ ∃ w, (l, w) ∈ x.allWarnings

/-- No list is filed that is empty, so that there is an issue at its place. -/
theorem Coherent.of_mem_filings (h : x.Coherent) {f : Filing} (hf : f ∈ x.filings) :
    f.items ≠ [] ∧ x.Lies f.loc := by
  rcases List.mem_append.mp hf with hf | hf
  · obtain ⟨entry, hentry, rfl⟩ := List.mem_map.mp hf
    have hfilled := h.errors.filled entry hentry
    obtain ⟨e, he⟩ := List.exists_mem_of_ne_nil _ hfilled
    refine ⟨by simpa using hfilled, .inl ⟨e, ?_⟩⟩
    exact List.mem_flatMap.mpr ⟨entry, hentry, List.mem_map_of_mem he⟩
  · obtain ⟨entry, hentry, rfl⟩ := List.mem_map.mp hf
    have hfilled := h.warnings.filled entry hentry
    obtain ⟨w, hw⟩ := List.exists_mem_of_ne_nil _ hfilled
    refine ⟨by simpa using hfilled, .inr ⟨w, ?_⟩⟩
    exact List.mem_flatMap.mpr ⟨entry, hentry, List.mem_map_of_mem hw⟩

/-- A list as it is reported: not at all if it is empty. -/
def listed (items : List Json) : Option Json :=
  if items.isEmpty then none else some (.array items)

/-- Under a key of lists the report holds what is gathered there, or nothing if this is empty. -/
theorem at?_toJson_listed (h : x.Coherent) (hnamed : x.Named) {key : String} (hkey : key ∈ listKeys)
    (path : List String) :
    x.toJson.at? (path ++ [key]) = listed (gathered x.filings (path ++ [key])) := by
  rw [toJson_eq]
  rcases (tells_file hnamed.beside).cases (path ++ [key]) with
    ⟨f, hf, heq, hlist⟩ | ⟨habove, -⟩ | ⟨hnot, hnone⟩
  · -- a list that was filed is not empty
    have hitem : gathered x.filings (path ++ [key]) ≠ [] := by
      obtain ⟨item, hitem⟩ := List.exists_mem_of_ne_nil _ (h.of_mem_filings hf).1
      refine List.ne_nil_of_mem (List.mem_flatMap.mpr ⟨f, ?_, hitem⟩)
      exact List.mem_filter.mpr ⟨hf, by simpa using heq.symm⟩
    rw [hlist, listed, if_neg (by simpa using hitem)]
  · -- an object can not be there: no list lies below the key of one
    rcases habove with hnil | ⟨f, hf, hpre, hne⟩
    · exact absurd hnil (by simp)
    · exact absurd (hnamed.prefix_way hf hkey hpre) hne
  · have hnil : gathered x.filings (path ++ [key]) = [] := by
      refine gathered_eq_nil fun f hf heq => ?_
      exact hnot f hf (heq ▸ List.prefix_refl f.way)
    rw [hnone, hnil]
    rfl

/-- What a report has to hold: all issues, and nothing else. -/
structure Reported (x : Issues) (report : Json) : Prop where
  /-- The errors are listed, in order, under the steps to their places and `_errors`. -/
  errors : ∀ path, report.at? (path ++ ["_errors"]) = listed (x.shownErrors path)
  /-- The warnings are listed, in order, under the steps to their places and `_warnings`. -/
  warnings : ∀ path, report.at? (path ++ ["_warnings"]) = listed (x.shownWarnings path)
  /-- Any other path that leads anywhere leads to an object with no key twice, which is the report
      itself or lies above an issue. -/
  only : ∀ path j, report.at? path = some j →
    (∃ way, path = way ++ ["_errors"] ∨ path = way ++ ["_warnings"]) ∨
      (∃ members, j = .object members ∧ Json.Ordered members) ∧
        (path = [] ∨ ∃ l, x.Lies l ∧ path <+: l.map Step.text)

/-- With any history, what was collected is reported, unless a step to an issue has the name of one of
    the lists. -/
theorem History.reported_toJson (h : History) (hnamed : h.issues.Named) :
    Reported h.issues h.issues.toJson := by
  have hcoherent := h.coherent
  generalize h.issues = x at hnamed hcoherent
  constructor
  case errors =>
    intro path
    rw [at?_toJson_listed hcoherent hnamed List.mem_cons_self, gathered_errors]
  case warnings =>
    intro path
    rw [at?_toJson_listed hcoherent hnamed (List.mem_cons_of_mem _ List.mem_cons_self),
      gathered_warnings]
  case only =>
    intro path j hj
    rw [toJson_eq] at hj
    rcases (tells_file hnamed.beside).cases path with
      ⟨f, hf, rfl, -⟩ | ⟨habove, members, hobject, hordered⟩ | ⟨-, hnone⟩
    · -- a list, so the path ends in its key
      left
      refine ⟨f.loc.map Step.text, ?_⟩
      rcases List.mem_cons.mp (mem_filings hf).1 with herrors | hwarnings
      · exact .inl (by rw [Filing.way, herrors])
      · exact .inr (by rw [Filing.way, List.mem_singleton.mp hwarnings])
    · rw [hobject] at hj
      cases hj
      refine .inr ⟨⟨members, rfl, hordered⟩, habove.imp_right ?_⟩
      rintro ⟨f, hf, hpre, hne⟩
      refine ⟨f.loc, (hcoherent.of_mem_filings hf).2, ?_⟩
      exact (List.prefix_concat_iff.mp hpre).resolve_left hne
    · rw [hnone] at hj
      cases hj

/-- Two addresses are preferred, and something is wrong with the first one, which is called so by its
    index and by a name that is shown alike. -/
def History.addresses : History :=
  .addError (.addError (.addError .empty .missingValue false [.name "emails", .index 0])
    .multiplePrimaryValues true [.name "emails"]) (.custom "unused") true
    [.name "emails", .name "0"]

/-- Both errors are found in one list, in the order in which they came. -/
theorem History.reported_toJson_addresses :
    History.addresses.issues.Named ∧
      History.addresses.issues.toJson.at? ["emails", "0", "_errors"] =
        some (.array
          [ .object [("code", .integer 6), ("error", .string "missing")],
            .object [("code", .integer 99), ("error", .string "unused")] ]) := by
  have hnamed : History.addresses.issues.Named := by
    show ∀ l ∈ _, ∀ key ∈ _, _ ∉ l
    decide
  have hreported := History.reported_toJson History.addresses hnamed
  exact ⟨hnamed, (hreported.errors ["emails", "0"]).trans rfl⟩

end Issues

end Scim
