import Scim.Patch.Request
import Scim.Proofs.Filter.Mistakes
import Scim.Proofs.Issues.Confined
import Scim.Proofs.Patch.Operation

/-!
  # A request is accepted as a whole or not at all

  A request is accepted just if it names its message and every element of its list of operations
  reads as an operation that is right; the operations of the request are then those of the elements,
  one for each, in their order (`Acceptable`).

    * The crux: an element that can not be read leaves an error behind (`hasErrors_of_read_error`).
      Elements are skipped when they can not be read, so without that an operation could be lost and
      the others would move up.
    * The issues of an element are merged at its index, and two indices are places apart, so what is
      seen from there is what the element gives alone (`relativeTo_found`).
-/

namespace Scim

open Issues (Confined)
open Location (Apart)
open Reading (Explained explained_fail explained_mapError)

/-! ## What can not be read leaves an error behind -/

namespace PatchPath

/-- A sub-attribute behind a filter is read, or else there is a mistake. -/
theorem explained_readSub (m : Masked) (rest : List Char) : (readSub m rest).Explained := by
  unfold readSub
  split
  · exact nofun
  · exact explained_mapError _
  · exact explained_fail _

/-- A path is read, or else there is a mistake, in each of its forms. -/
theorem explained_read (catalog : Catalog) (operators : Operators) (input : List Char) :
    (read catalog operators input).Explained := by
  unfold read
  dsimp only
  split
  · exact explained_fail _
  · exact explained_fail _
  · split
    · exact explained_mapError _
    · -- with a filter the path has three parts, and each of them is read or explained
      unfold readSelecting
      split
      · exact explained_fail _
      · refine (explained_readSub _ _).bind fun sub => ?_
        refine (explained_mapError _).bind fun attr => ?_
        exact (Filter.explained_read _ _ _).bind fun filter => explained_mapError _

/-- A text that is no path is refused, and quoted as a whole. -/
theorem refuses_of_parse_error {catalog : Catalog} {operators : Operators} {input : String}
    {issues : Issues} (h : parse catalog operators input = .error issues) :
    issues.Refuses fun e => ∃ mistake : Error, e = .badPath input mistake.message := by
  have hexplained := explained_read catalog operators input.toList
  unfold parse at h
  cases hread : read catalog operators input.toList with
  | ok p => simp [hread, Except.mapError] at h
  | error es =>
    rw [hread] at h hexplained
    obtain rfl := Except.error.inj h
    refine Issues.refuses_ofErrors (by simpa using hexplained.ne_nil) fun e he => ?_
    obtain ⟨mistake, -, rfl⟩ := List.mem_map.mp he
    exact ⟨mistake, rfl⟩

/-- So a path that is refused leaves an error behind. -/
theorem hasErrors_of_parse_error {catalog : Catalog} {operators : Operators} {s : String}
    {issues : Issues} (h : parse catalog operators s = .error issues) : issues.hasErrors = true :=
  (refuses_of_parse_error h).hasErrors

end PatchPath

namespace Operation

/-- And so does an operation whose path is refused. -/
theorem hasErrors_of_readPath_error {ctx : PatchContext} {r : Record} {issues : Issues}
    (h : readPath ctx r = .error issues) : issues.hasErrors = true := by
  unfold readPath at h
  split at h
  · simp at h
  · rename_i s _
    cases hparse : PatchPath.parse ctx.catalog ctx.operators s with
    | ok p => simp [hparse, Except.map] at h
    | error found =>
      rw [hparse] at h
      obtain rfl := Except.error.inj h
      exact PatchPath.hasErrors_of_parse_error hparse
  · obtain rfl := Except.error.inj h
    exact Issues.hasErrors_fatal _ _

/-- A record that is no operation leaves an error behind. -/
theorem hasErrors_of_read_error {ctx : PatchContext} {r : Record} {issues : Issues}
    (h : read ctx r = .error issues) : issues.hasErrors = true := by
  dsimp only [read] at h
  split at h
  · simp at h
  · obtain rfl := Except.error.inj h
    exact Issues.hasErrors_fatal _ _
  · -- the path was refused, and so was the operation with it
    rename_i found _ hpath
    obtain rfl := Except.error.inj h
    simp [Issues.hasErrors_merge, hasErrors_of_readPath_error hpath]
  · obtain rfl := Except.error.inj h
    simp [Issues.hasErrors_merge]

end Operation

namespace PatchRequest

variable {ctx : PatchContext} {config : ServiceConfig} {body : Record} {items : List Value}
  {operations : List Operation}

/-! ## Elements -/

/-- An element of the list reads as an operation, and the operation is right. -/
def ReadsAs (ctx : PatchContext) (item : Value) (o : Operation) : Prop :=
  ∃ r, item = .complex r ∧ Operation.read ctx r = .ok o ∧
    (o.validate ctx.schema).hasErrors = false

/-- An element reads as an operation just if it gives this one, and no errors. -/
theorem readsAs_iff {item : Value} {o : Operation} :
    ReadsAs ctx item o ↔
      (readItem ctx item).1 = some o ∧ (readItem ctx item).2.hasErrors = false := by
  cases item with
  | complex r =>
    cases hread : Operation.read ctx r with
    | ok o' =>
      simp only [ReadsAs, readItem, hread, Value.complex.injEq, Option.some.injEq]
      constructor
      · rintro ⟨_, rfl, hread', hright⟩
        obtain rfl := Except.ok.inj (hread.symm.trans hread')
        exact ⟨rfl, hright⟩
      · rintro ⟨rfl, hright⟩
        exact ⟨r, rfl, hread, hright⟩
    | error issues => simp [ReadsAs, readItem, hread]
  | _ => simp [ReadsAs, readItem]

/-- An element without errors is an operation: none is skipped for good. -/
theorem exists_readsAs {item : Value} (h : (readItem ctx item).2.hasErrors = false) :
    ∃ o, ReadsAs ctx item o := by
  cases hitem : (readItem ctx item).1 with
  | some o => exact ⟨o, readsAs_iff.mpr ⟨hitem, h⟩⟩
  | none =>
    -- nothing is given for a record that is no operation, and for what is no record, and both have
    -- errors
    unfold readItem at h hitem
    split at h
    · split at h
      · rename_i hread
        simp [hread] at hitem
      · rename_i hread
        simp [Operation.hasErrors_of_read_error hread] at h
    · simp at h

/-! ## The list of operations -/

/-- The place of an element of the list. -/
def atItem (i : Nat) : Location := atOperations.childIndex i

/-- Different elements have places that lie apart. -/
theorem apart_atItem {i j : Nat} (h : i ≠ j) : Apart (atItem i) (atItem j) := by
  -- both places have two steps, so neither lies above the other
  constructor <;> intro hprefix
  · have hstep : Step.index i = Step.index j := by
      simpa [atItem, atOperations, Location.ofName, Location.childIndex] using hprefix
    exact h (Step.index.inj hstep)
  · have hstep : Step.index j = Step.index i := by
      simpa [atItem, atOperations, Location.ofName, Location.childIndex] using hprefix
    exact h (Step.index.inj hstep).symm

/-- The issues of the elements, each merged at its index. -/
theorem issues_readItems (ctx : PatchContext) (items : List Value) :
    (readItems ctx items).2 =
      items.zipIdx.foldl (fun issues (item, i) => issues.merge (readItem ctx item).2 (atItem i))
        .empty := by
  simp only [readItems, List.zipIdx_map, List.foldl_map]
  rfl

/-- The issues of an element lie at its place. -/
theorem confined_readItem (ctx : PatchContext) (entry : Value × Nat) :
    Confined (atItem entry.2) (·.merge (readItem ctx entry.1).2 (atItem entry.2)) :=
  Confined.merge _ List.prefix_rfl

/-- No two elements of a list have the same index. -/
theorem pairwise_apart_zipIdx (items : List Value) :
    items.zipIdx.Pairwise fun e e' => Apart (atItem e.2) (atItem e'.2) := by
  have hdistinct : (items.zipIdx.map (·.2)).Nodup := by
    rw [List.zipIdx_map_snd]
    exact List.nodup_range'
  exact (List.pairwise_map.mp hdistinct).imp apart_atItem

/-- An element gives the issues that it gives alone. -/
theorem within_readItems {i : Nat} {item : Value} (h : items[i]? = some item) :
    (readItems ctx items).2.within (atItem i) =
      Issues.empty.merge (readItem ctx item).2 (atItem i) := by
  have hmem : (item, i) ∈ items.zipIdx := List.mem_zipIdx_iff_getElem?.mpr h
  rw [issues_readItems]
  exact Issues.within_foldl_of_mem (fun e : Value × Nat => atItem e.2)
    (fun e _ => confined_readItem ctx e) (pairwise_apart_zipIdx items) hmem
    (Issues.openAbove_empty _)

/-- Whatever is found in the list is found at an element. -/
theorem mem_places_readItems {l : Location} (h : l ∈ (readItems ctx items).2.places) :
    ∃ i < items.length, atItem i <+: l := by
  rw [issues_readItems] at h
  rcases Issues.mem_places_foldl (fun e : Value × Nat => atItem e.2)
    (fun e _ => confined_readItem ctx e) h with hnone | ⟨⟨item, i⟩, hmem, hbelow⟩
  · simp at hnone
  · have hi := List.mem_zipIdx_iff_getElem?.mp hmem
    exact ⟨i, (List.getElem?_eq_some_iff.mp hi).1, hbelow⟩

/-- The list has no errors just if no element has. -/
theorem hasErrors_readItems :
    (readItems ctx items).2.hasErrors = false ↔
      ∀ item ∈ items, (readItem ctx item).2.hasErrors = false := by
  rw [issues_readItems]
  refine (Issues.hasErrors_foldl_merge items.zipIdx (fun e => (readItem ctx e.1).2)
    (fun e => atItem e.2) .empty).trans ?_
  simp only [Issues.hasErrors_empty, true_and]
  conv_rhs => rw [← List.zipIdx_map_fst 0 items, List.forall_mem_map]

/-- Without errors every element is an operation, and no operation is lost or changes its place. -/
theorem readItems_iff :
    (readItems ctx items).2.hasErrors = false ∧ (readItems ctx items).1 = operations ↔
      List.Forall₂ (ReadsAs ctx) items operations := by
  rw [hasErrors_readItems]
  show _ ∧ (items.map (readItem ctx)).filterMap (·.1) = operations ↔ _
  -- on the elements: an element without errors gives one operation, so the two lists go on together
  induction items generalizing operations with
  | nil =>
    rw [List.forall₂_nil_left_iff, eq_comm]
    simp
  | cons item rest ih =>
    rw [List.forall_mem_cons, List.forall₂_cons_left_iff, List.map_cons]
    constructor
    · rintro ⟨⟨hitem, hrest⟩, hoperations⟩
      obtain ⟨o, ho⟩ := exists_readsAs hitem
      rw [List.filterMap_cons_some (readsAs_iff.mp ho).1] at hoperations
      exact ⟨o, _, ho, ih.mp ⟨hrest, rfl⟩, hoperations.symm⟩
    · rintro ⟨o, operations, ho, hrest, rfl⟩
      have ⟨hread, hright⟩ := readsAs_iff.mp ho
      have ⟨hrights, hoperations⟩ := ih.mpr hrest
      rw [List.filterMap_cons_some hread, hoperations]
      exact ⟨⟨hright, hrights⟩, rfl⟩

/-! ## Requests -/

/-- The body names the schema of its message. -/
def NamesMessage (body : Record) : Prop :=
  ∃ uris, Record.getD body "schemas" = .list uris ∧
    ∃ s, .string s ∈ uris ∧ Text.sameAscii s.toList patchMessageUri.toList = true

/-- The body is a request with these operations: it names its message, and each element of its list
    is an operation that is right. -/
structure Acceptable (ctx : PatchContext) (body : Record) (operations : List Operation) : Prop where
  message : NamesMessage body
  operations : ∃ items, Record.getD body "Operations" = .list items ∧ items ≠ [] ∧
    List.Forall₂ (ReadsAs ctx) items operations

/-- The message is right just if the body names it. -/
theorem hasErrors_checkMessage : (checkMessage body).hasErrors = false ↔ NamesMessage body := by
  dsimp only [checkMessage, NamesMessage]
  cases hlist : Record.getD body "schemas" with
  | list uris =>
    -- only texts among the schemas count
    have hnamed : (uris.any fun uri =>
          uri.string?.any fun s => Text.sameAscii s.toList patchMessageUri.toList) = true ↔
        ∃ s, .string s ∈ uris ∧ Text.sameAscii s.toList patchMessageUri.toList = true := by
      rw [List.any_eq_true]
      constructor
      · rintro ⟨uri, hmem, hsame⟩
        cases uri with
        | string s => exact ⟨s, hmem, hsame⟩
        | _ => simp [Value.string?] at hsame
      · rintro ⟨s, hmem, hsame⟩
        exact ⟨.string s, hmem, hsame⟩
    simp only [Value.list.injEq, exists_eq_left', ← hnamed]
    split <;> simp [*]
  | _ => simp

/-- What is wrong with the message is found at its schemas. -/
theorem mem_places_checkMessage {l : Location} (h : l ∈ (checkMessage body).places) :
    l = .ofName "schemas" := by
  dsimp only [checkMessage] at h
  split at h
  · exact Issues.mem_places_fatal h
  · split at h
    · simp at h
    · exact Issues.mem_places_fatal h
  · exact Issues.mem_places_fatal h

/-- The operations are right just if they are a list, which is not empty, and whose elements all
    read as such. -/
theorem readOperations_iff :
    (readOperations ctx body).2.hasErrors = false ∧ (readOperations ctx body).1 = operations ↔
      ∃ items, Record.getD body "Operations" = .list items ∧ items ≠ [] ∧
        List.Forall₂ (ReadsAs ctx) items operations := by
  unfold readOperations
  cases hlist : Record.getD body "Operations" with
  | list items =>
    cases items with
    | nil => simp
    | cons item rest => simp [readItems_iff]
  | _ => simp

/-- What is wrong with the operations is found at their list or at an element. -/
theorem mem_places_readOperations {l : Location} (h : l ∈ (readOperations ctx body).2.places) :
    l = atOperations ∨ ∃ items, Record.getD body "Operations" = .list items ∧
      ∃ i < items.length, atItem i <+: l := by
  unfold readOperations at h
  split at h
  · exact .inl (Issues.mem_places_fatal h)
  · exact .inl (Issues.mem_places_fatal h)
  · rename_i items _ hlist
    exact .inr ⟨items, hlist, mem_places_readItems h⟩
  · exact .inl (Issues.mem_places_fatal h)

/-- What is found in a request: what is wrong with its message, and then with its operations. -/
def found (ctx : PatchContext) (body : Record) : Issues :=
  (checkMessage body).merge (readOperations ctx body).2 .root

/-- A request is refused just if an error is found, and otherwise it has the operations that were
    read. -/
theorem parse_eq (h : config.patch.supported = true) :
    parse ctx config body = if (found ctx body).hasErrors then .error (found ctx body)
      else .ok ⟨(readOperations ctx body).1, found ctx body⟩ := by
  rw [parse, h]
  rfl

/-- No error is found just if the body is a request, and its operations are those that are read. -/
theorem acceptable_iff :
    (found ctx body).hasErrors = false ∧ (readOperations ctx body).1 = operations ↔
      Acceptable ctx body operations := by
  rw [found, Issues.hasErrors_merge_eq_false_iff, and_assoc, readOperations_iff,
    hasErrors_checkMessage]
  exact ⟨fun ⟨hmessage, hoperations⟩ => ⟨hmessage, hoperations⟩, fun h => ⟨h.message, h.operations⟩⟩

/-- What is found lies at the schemas of the message, at the list of operations, or at an element.
    -/
theorem mem_places_found {l : Location} (h : l ∈ (found ctx body).places) :
    l = .ofName "schemas" ∨ l = atOperations ∨
      ∃ items, Record.getD body "Operations" = .list items ∧
        ∃ i < items.length, atItem i <+: l := by
  rcases Issues.mem_places_merge.mp h with hmessage | ⟨m, hm, rfl⟩
  · exact .inl (mem_places_checkMessage hmessage)
  · exact .inr (mem_places_readOperations hm)

/-- From the index of an element nothing is seen but what the element gives alone. -/
theorem relativeTo_found {i : Nat} {item : Value}
    (hlist : Record.getD body "Operations" = .list items) (h : items[i]? = some item) :
    (found ctx body).relativeTo (atItem i) =
      Issues.empty.merge (Issues.empty.merge (readItem ctx item).2 .root) .root := by
  -- the message is looked at elsewhere
  have hmessage : (checkMessage body).within (atItem i) = .empty := by
    refine Issues.within_eq_empty fun l hl hbelow => ?_
    rw [mem_places_checkMessage hl] at hbelow
    simp [atItem, atOperations, Location.childIndex, Location.ofName] at hbelow
  -- a list with an element is not empty
  have hoperations : (readOperations ctx body).2 = (readItems ctx items).2 := by
    cases items with
    | nil => simp at h
    | cons first rest => simp only [readOperations, hlist]
  rw [found, Issues.relativeTo_merge_root, ← Issues.relativeTo_within, hmessage, hoperations,
    ← Issues.relativeTo_within (readItems ctx items).2, within_readItems h, Issues.relativeTo_merge]
  rfl

/-! ## All or nothing -/

/-- What was found in a request, whether it was accepted or not. -/
def findings : Except Issues PatchRequest → Issues
  | .ok request => request.warnings
  | .error issues => issues

/-- Nothing that is found gets lost, whether the request is accepted or not. -/
theorem findings_parse (h : config.patch.supported = true) (body : Record) :
    findings (parse ctx config body) = found ctx body := by
  rw [parse_eq h]
  split <;> rfl

/-- A request is accepted as a whole or not at all, and its operations make no difference to each
    other. -/
structure AllOrNothing (ctx : PatchContext) (config : ServiceConfig) (body : Record) : Prop where
  /-- The request is accepted just if no error is found. -/
  accepted : (∃ request, parse ctx config body = .ok request) ↔
    (findings (parse ctx config body)).hasErrors = false
  /-- It has the operations of its elements, each of them right, in their order. -/
  operations : ∀ operations, (∃ warnings, parse ctx config body = .ok ⟨operations, warnings⟩) ↔
    Acceptable ctx body operations
  /-- The issues of an element are those of a body that holds no other element. -/
  alone : ∀ items i item, Record.getD body "Operations" = .list items → items[i]? = some item →
    ∀ body', Record.getD body' "Operations" = .list [item] →
      (findings (parse ctx config body)).AgreeAt (atItem i)
        (findings (parse ctx config body')) (atItem 0)
  /-- All other issues lie at the schemas of the message or at the list of operations. -/
  places : ∀ l ∈ (findings (parse ctx config body)).places,
    l = .ofName "schemas" ∨ l = atOperations ∨
      ∃ items, Record.getD body "Operations" = .list items ∧ ∃ i < items.length, atItem i <+: l

/-- Every body is accepted as a whole or not at all, if changes are supported. -/
theorem allOrNothing_parse (ctx : PatchContext) {config : ServiceConfig}
    (h : config.patch.supported = true) (body : Record) : AllOrNothing ctx config body where
  accepted := by
    rw [findings_parse h, parse_eq h]
    cases (found ctx body).hasErrors <;> simp
  operations operations := by
    rw [← acceptable_iff, parse_eq h]
    cases (found ctx body).hasErrors <;> simp
  alone items i item hlist hitem body' hlist' := .of_relativeTo <| by
    rw [findings_parse h, findings_parse h, relativeTo_found hlist hitem,
      relativeTo_found hlist' rfl]
  places l hl := by
    rw [findings_parse h] at hl
    exact mem_places_found hl

/-- Requests to the store. -/
def storeContext : PatchContext := ⟨.empty, .standard, storeSchema⟩

/-- An operation that says neither what it does nor where. -/
def idleOperation : Value := .complex [("op", .string "move"), ("path", .boolean true)]

/-- An operation that takes the shelves away. -/
def clearing : Value := .complex [("OP", .string "Remove"), ("path", .string "shelves")]

/-- A body with a list of operations. -/
def bodyOf (operations : List Value) : Record :=
  [("schemas", .list [.string patchMessageUri]), ("Operations", .list operations)]

theorem getD_bodyOf (operations : List Value) :
    Record.getD (bodyOf operations) "Operations" = .list operations := by
  simp +decide [bodyOf, Record.getD, Record.get?]

/-- Beside others, an operation has the issues that it has alone; and where there are none, all
    operations are there. -/
theorem allOrNothing_parse_store :
    ({} : ServiceConfig).patch.supported = true ∧
      (¬∃ request, parse storeContext {} (bodyOf [.null, clearing, idleOperation]) =
        .ok request) ∧
      (findings (parse storeContext {} (bodyOf [.null, clearing, idleOperation]))).AgreeAt
        (atItem 2) (findings (parse storeContext {} (bodyOf [idleOperation]))) (atItem 0) ∧
      ∃ operations, Acceptable storeContext (bodyOf [clearing, clearing]) operations := by
  have hsupported : ({} : ServiceConfig).patch.supported = true := rfl
  have hmixed := allOrNothing_parse storeContext hsupported
    (bodyOf [.null, clearing, idleOperation])
  have hclear := allOrNothing_parse storeContext hsupported (bodyOf [clearing, clearing])
  refine ⟨hsupported, ?_, ?_, ?_⟩
  · rw [hmixed.accepted]
    decide +kernel
  · exact hmixed.alone _ 2 idleOperation (getD_bodyOf _) rfl _ (getD_bodyOf _)
  · -- a request without errors is accepted, and so it has operations
    obtain ⟨⟨operations, warnings⟩, hparse⟩ := hclear.accepted.mpr (by decide +kernel)
    exact ⟨operations, (hclear.operations operations).mp ⟨warnings, hparse⟩⟩

end PatchRequest

end Scim
