import Scim.Proofs.Filter.Registered
import Scim.Proofs.Patch.Path
import Scim.Proofs.Record.Alike
import Scim.Proofs.Schema.Creation

/-!
  # What the filter of a path selects

  The filter of a path is asked in two ways.  `PatchPath.selects` asks it of one element, whatever
  resource the element is in; `Filter.evaluate` asks it of a whole resource, and finds the elements
  there.  The two give the same answer, if `selects` is asked of the elements that the resource has
  stored for the attribute of the path (`PatchPath.stored?`).

    * `Filter.holdsForAny_eq_any`: asking of several elements is asking of each by itself;
    * `Schema.resolve?_congr`, `Record.getAt?_congr`: the filter names the attribute of the path, in
      another casing perhaps.  What it names is found all the same, and so is what is stored there.
      This takes a catalog that knows both URIs: it settles whether they are one of an extension.

  `selects_exactly` puts these together.
-/

namespace Scim

/-! ## Elements -/

/-- A filter holds for one of the elements if it holds for one of them by itself. -/
theorem Filter.holdsForAny_eq_any (f : Filter) (a : Attribute) (elements : List Value) :
    f.holdsForAny a elements = elements.any fun element => f.holdsForAny a [element] := by
  induction elements with
  | nil => rfl
  | cons element rest ih =>
    -- the first element is asked apart from the others
    have hsplit : f.holdsForAny a (element :: rest) =
        (f.holdsForAny a [element] || f.holdsForAny a rest) := by
      show (List.filterMap a.elementRecord? ([element] ++ rest)).any _ = _
      rw [List.filterMap_append, List.any_append]
      rfl
    rw [hsplit, ih, List.any_cons]

/-! ## References in other casings -/

/-- A name finds an attribute in any casing. -/
theorem AttributeSet.find?_congr {κ : Type} (s : AttributeSet κ) {name name' : Name}
    (h : name.same name' = true) : s.find? name = s.find? name' := by
  have hkey : name.key = name'.key := by simpa [Name.same] using h
  show s.findKey? name.key = s.findKey? name'.key
  rw [hkey]

/-- Paths that are the same up to case name attributes and sub-attributes that are. -/
theorem Path.same_cases {path path' : Path} (h : path.same path' = true) :
    path.attr.same path'.attr = true ∧
      (path.sub = none ∧ path'.sub = none ∨
        ∃ sub sub', path.sub = some sub ∧ path'.sub = some sub' ∧ sub.same sub' = true) := by
  obtain ⟨hattr, hsub⟩ := Bool.and_eq_true_iff.mp h
  refine ⟨hattr, ?_⟩
  -- both have a sub-attribute or none has
  cases hpath : path.sub with
  | none =>
    cases hpath' : path'.sub with
    | none => exact .inl ⟨rfl, rfl⟩
    | some sub' => simp [sameSub, hpath, hpath'] at hsub
  | some sub =>
    cases hpath' : path'.sub with
    | none => simp [sameSub, hpath, hpath'] at hsub
    | some sub' =>
      have hsame : sub.same sub' = true := by simpa [sameSub, hpath, hpath'] using hsub
      exact .inr ⟨sub, sub', rfl, rfl, hsame⟩

/-- And so does a path in a part. -/
theorem Schema.Part.attribute?_congr (p : Schema.Part) {path path' : Path}
    (h : path.same path' = true) : p.attribute? path = p.attribute? path' := by
  obtain ⟨hattr, hsub⟩ := Path.same_cases h
  have hfind := p.attributes.find?_congr hattr
  rcases hsub with ⟨hnone, hnone'⟩ | ⟨sub, sub', hsub, hsub', hsame⟩
  · simp only [Part.attribute?, hfind, hnone, hnone']
  · have hfindSub : ∀ subs : AttributeSet SimpleKind, subs.find? sub = subs.find? sub' :=
      fun subs => subs.find?_congr hsame
    simp only [Part.attribute?, hfind, hsub, hsub', hfindSub]

/-- In a record it finds the same value in any casing. -/
theorem Record.getPath?_congr (r : Record) {path path' : Path} (h : path.same path' = true)
    (lacking : Value) : getPath? r path lacking = getPath? r path' lacking := by
  have hget : ∀ {name name' : Name}, name.same name' = true → ∀ fields : Record,
      get? fields name.text = get? fields name'.text := by
    intro name name' hsame fields
    have hkey : Text.lower name.text = Text.lower name'.text := eq_of_beq hsame
    exact get?_congr hkey fields
  obtain ⟨hattr, hsub⟩ := Path.same_cases h
  rcases hsub with ⟨hnone, hnone'⟩ | ⟨sub, sub', hsub, hsub', hsame⟩
  · simp only [getPath?, hget hattr, hnone, hnone']
  · have hgetSub : ∀ value, getSub? value sub lacking = getSub? value sub' lacking := by
      intro value
      simp only [getSub?, hget hsame]
    simp only [getPath?, hget hattr, hsub, hsub', hgetSub]

/-- The same path of one schema, up to the casing of the path. -/
def Qualified.Matches (q q' : Qualified) : Prop :=
  q.schema = q'.schema ∧ q.path.same q'.path = true

/-- In a schema it finds the same attribute. -/
theorem Schema.attribute?_congr (s : Schema) {q q' : Qualified} (h : q.Matches q') :
    s.attribute? q = s.attribute? q' := by
  have hpart : ∀ p : Part, p.attribute? q.path = p.attribute? q'.path :=
    fun p => p.attribute?_congr h.2
  simp only [attribute?, h.1, hpart]

/-- And in a resource the same value. -/
theorem Record.getAt?_congr (r : Record) {q q' : Qualified} (h : q.Matches q') (lacking : Value) :
    getAt? r (.ofQualified q) lacking = getAt? r (.ofQualified q') lacking := by
  have hpath : ∀ fields : Record,
      getPath? fields q.path lacking = getPath? fields q'.path lacking :=
    fun fields => getPath?_congr fields h.2 lacking
  cases hextension : q'.schema.isExtension with
  | true => simp only [Key.ofQualified, h.1, hextension, if_true, getAt?, hpath]
  | false =>
    simp only [Key.ofQualified, h.1, hextension, Bool.false_eq_true, if_false, getAt?, hpath]

/-- References that are the same up to case are bound to the same path. -/
theorem Schema.resolve?_congr {c : Catalog} {ref ref' : Reference} (href : ref.Registered c)
    (href' : ref'.Registered c) (h : ref.same ref' = true) (s : Schema) :
    Option.Rel Qualified.Matches (s.resolve? ref) (s.resolve? ref') := by
  cases ref with
  | plain path =>
    cases ref' with
    | qualified => nomatch h
    | plain path' =>
      have hpart : ∀ p : Part, p.attribute? path = p.attribute? path' :=
        fun p => p.attribute?_congr h
      simp only [resolve?, hpart]
      cases s.parts.find? fun p => (p.attribute? path').isSome with
      | none => exact .none
      | some p => exact .some ⟨rfl, h⟩
  | qualified q =>
    cases ref' with
    | plain => nomatch h
    | qualified q' =>
      obtain ⟨hschema, hpath⟩ := Bool.and_eq_true_iff.mp h
      have hkey : q.schema.key = q'.schema.key := by simpa [SchemaUri.same] using hschema
      -- the catalog has a single URI for both
      have hmatches : q.Matches q' := ⟨(href _ rfl).eq_of_key (href' _ rfl) hkey, hpath⟩
      simp only [resolve?, s.attribute?_congr hmatches]
      split
      · exact .some hmatches
      · exact .none

/-- What is bound names an attribute. -/
theorem Schema.exists_of_resolve? {s : Schema} {ref : Reference} {q : Qualified}
    (h : s.resolve? ref = some q) : ∃ a, s.attribute? q = some a := by
  cases ref with
  | qualified q' =>
    simp only [resolve?] at h
    split at h
    · rename_i hsome
      obtain rfl := Option.some.inj h
      exact Option.isSome_iff_exists.mp hsome
    · nomatch h
  | plain path =>
    -- the first part that has the path has it under its own URI
    obtain ⟨p, hp, rfl⟩ := Option.map_eq_some_iff.mp h
    have hsome : (p.attribute? path).isSome = true := by simpa using List.find?_some hp
    have hpart := part?_uri (List.mem_of_find?_eq_some hp)
    obtain ⟨a, ha⟩ := Option.isSome_iff_exists.mp hsome
    refine ⟨a, ?_⟩
    show (s.part? p.uri).bind _ = _
    rw [hpart, Option.bind_some, ha]

/-! ## Paths -/

namespace PatchPath

variable {c : Catalog} {p : PatchPath} {f : Filter}

/-- The URIs of the attribute and of the filter's attribute are registered. -/
def Registered (c : Catalog) (p : PatchPath) : Prop :=
  p.attr.Registered c ∧ ∀ s ∈ p.selection, s.attr.Registered c

/-- A path is registered if its attribute and its filter are. -/
theorem registered_of_filter? (hattr : p.attr.Registered c)
    (hfilter : ∀ f ∈ p.filter?, f.Registered c) : p.Registered c := by
  refine ⟨hattr, fun s hs => ?_⟩
  exact hfilter s.filter (Option.mem_map_of_mem _ hs) s.attr List.mem_cons_self

/-- A path that was read from a text refers to registered URIs only. -/
theorem registered_of_parse {operators : Operators} (hops : operators.WellFormed) {s : String}
    (hs : Masked.border ∉ s.toList) (h : parse c operators s = .ok p) : p.Registered c := by
  obtain ⟨-, -, ⟨-, hplain⟩ | ⟨name, bracketed, -, -, hselecting⟩⟩ :=
    read_eq_ok.mp (parse_eq_ok.mp h)
  · -- without a selection the path is a reference
    obtain ⟨ref, hparse, hmake⟩ := readPlain_eq_ok.mp hplain
    obtain ⟨hattr, hfilter, -⟩ := make_eq_ok hmake
    have hparent : ref.parent.Registered c := by
      have href := Reference.registered_of_parse hparse
      cases ref with
      | plain path => exact fun u hu => nomatch hu
      | qualified q => exact href
    exact registered_of_filter? (hattr ▸ hparent) (by simp [hfilter])
  · -- with one, the filter was read as filters are
    obtain ⟨selection, rest, -, sub, -, attr, hparse, filter, hread, hmake⟩ :=
      readSelecting_eq_ok.mp hselecting
    obtain ⟨hattr, hfilter, -⟩ := make_eq_ok hmake
    have hpiece := Masked.border_not_mem_unmask hs (name ++ selection)
    have hregistered : filter.Registered c :=
      Filter.registered_of_derives ((Filter.read_eq_ok hops hpiece).mp hread).2
    exact registered_of_filter? (hattr ▸ Reference.registered_of_parse hparse)
      (by simp [hfilter, hregistered])

/-- What a resource has stored for the attribute of a path. -/
def stored? (p : PatchPath) (s : Schema) (r : Record) : Option Value :=
  (s.resolve? p.attr).bind fun q => Record.getAt? r (.ofQualified q) .null

/-- An element is selected if the inner filter holds for it. -/
theorem selects_of_resolve? {sel : ElementSelection} (hsel : p.selection = some sel) {s : Schema}
    {a : Attribute} (ha : s.attributeOf? p.attr = some a) (element : Value) :
    p.selects element s = .ok (sel.inner.holdsForAny a [element]) := by
  simp only [selects, hsel, ha]

/-- The filter of a path looks at the elements that are stored for the attribute of the path. -/
theorem evaluate_filter (hp : p.Registered c) {sel : ElementSelection}
    (hsel : p.selection = some sel) (s : Schema) (r : Record) : sel.filter.evaluate r s =
      match s.attributeOf? p.attr, p.stored? s r with
      | some a, some value => sel.inner.holdsForAny a (Filter.elements value)
      | _, _ => false := by
  have hresolve := s.resolve?_congr (hp.2 sel hsel) hp.1 (p.onAttr sel hsel)
  show (match s.attributeOf? sel.attr,
      (s.resolve? sel.attr).bind fun q => Record.getAt? r (.ofQualified q) .null with
    | some a, some value => sel.inner.holdsForAny a (Filter.elements value)
    | _, _ => false) = _
  unfold Schema.attributeOf? stored?
  rcases hresolve.none_or_some with ⟨hnone, hnone'⟩ | ⟨q, q', hsome, hsome', hmatches⟩
  · simp only [hnone, hnone', Option.bind_none]
  · simp only [hsome, hsome', Option.bind_some, s.attribute?_congr hmatches,
      r.getAt?_congr hmatches]

/-- A path and its filter agree on what is selected in a resource. -/
structure SelectsExactly (p : PatchPath) (f : Filter) (s : Schema) (r : Record) : Prop where
  /-- Of a list, the filter asks whether some element is selected. -/
  list : ∀ items, p.stored? s r = some (.list items) →
    (f.evaluate r s = true ↔ ∃ item ∈ items, p.selects item s = .ok true)
  /-- Of any other value, it asks whether the value is selected. -/
  single : ∀ value, p.stored? s r = some value → value.list? = none →
    p.selects value s = .ok (f.evaluate r s)
  /-- Where nothing is stored, there is nothing to select. -/
  missing : p.stored? s r = none → f.evaluate r s = false
  /-- For an attribute that the schema knows there is always an answer. -/
  answered : s.resolve? p.attr ≠ none → ∀ element, ∃ answer, p.selects element s = .ok answer
  /-- For others there is none, and the filter does not hold. -/
  unknown : s.resolve? p.attr = none → f.evaluate r s = false ∧
    ∀ element, p.selects element s = .error (.validation (.unknownTarget p.text))

/-- A path and its filter agree, if the catalog knows what they refer to. -/
theorem selectsExactly_of_registered (hp : p.Registered c) (hfilter : p.filter? = some f)
    (s : Schema) (r : Record) : SelectsExactly p f s r := by
  obtain ⟨sel, hsel, rfl⟩ := Option.map_eq_some_iff.mp hfilter
  have hevaluate := evaluate_filter hp hsel s r
  -- the schema may not know the attribute, and then nothing is stored for it either
  cases hresolve : s.resolve? p.attr with
  | none =>
    have hattr : s.attributeOf? p.attr = none := by
      rw [Schema.attributeOf?, hresolve, Option.bind_none]
    have hstored : p.stored? s r = none := by rw [stored?, hresolve, Option.bind_none]
    rw [hattr, hstored] at hevaluate
    refine ⟨fun items hitems => ?_, fun value hvalue => ?_, fun _ => hevaluate,
      fun hsome => absurd hresolve hsome, fun _ => ⟨hevaluate, fun element => ?_⟩⟩
    · nomatch hstored.symm.trans hitems
    · nomatch hstored.symm.trans hvalue
    · simp only [selects, hsel, hattr]
  | some q =>
    obtain ⟨a, ha⟩ := Schema.exists_of_resolve? hresolve
    have hattr : s.attributeOf? p.attr = some a := by
      rw [Schema.attributeOf?, hresolve, Option.bind_some, ha]
    have hselects := selects_of_resolve? hsel hattr
    rw [hattr] at hevaluate
    refine ⟨fun items hitems => ?_, fun value hvalue hsingle => ?_, fun hmissing => ?_,
      fun _ element => ⟨_, hselects element⟩, fun hnone => nomatch hresolve.symm.trans hnone⟩
    · rw [hitems] at hevaluate
      rw [hevaluate]
      show sel.inner.holdsForAny a items = true ↔ _
      rw [Filter.holdsForAny_eq_any, List.any_eq_true]
      simp only [hselects, Except.ok.injEq]
    · -- what is no list is its only element
      have helements : Filter.elements value = [value] := by
        cases value with
        | list items => nomatch hsingle
        | _ => rfl
      rw [hvalue] at hevaluate
      rw [hselects, hevaluate, ← helements]
    · rw [hmissing] at hevaluate
      exact hevaluate

/-- The filter of a path that was read from a text selects just what it matches. -/
theorem selectsExactly_of_parse {operators : Operators} (hops : operators.WellFormed) {text : String}
    (htext : Masked.border ∉ text.toList) (h : parse c operators text = .ok p)
    (hfilter : p.filter? = some f) (s : Schema) (r : Record) : SelectsExactly p f s r :=
  selectsExactly_of_registered (registered_of_parse hops htext h) hfilter s r

/-- The filter of a path selects just what it matches. -/
theorem selects_exactly (hp : p.Registered c) (hfilter : p.filter? = some f) (s : Schema)
    (r : Record) : SelectsExactly p f s r :=
  selectsExactly_of_registered hp hfilter s r

/-- The badges of number 7, of which the attribute is written in capitals. -/
def sevenBadges : PatchPath where
  attr := .qualified ⟨Schema.staffExtension.uri, ⟨⟨"BADGES", by decide +kernel⟩, none⟩⟩
  selection := some
    { attr := .qualified ⟨Schema.staffExtension.uri, ⟨Schema.badges, none⟩⟩
      inner := .leaf ⟨.plain ⟨Schema.badgeNumber, none⟩, .binary .equal (.string "7")⟩ }
  sub := none
  isTop := rfl
  onAttr := by
    intro s hs
    obtain rfl := Option.some.inj hs
    decide +kernel

/-- A member of staff has such a badge, and it is one that the path selects. -/
theorem selects_exactly_sevenBadges :
    sevenBadges.Registered ⟨Schema.staffSchema.uris⟩ ∧
      (∀ f ∈ sevenBadges.filter?,
        SelectsExactly sevenBadges f Schema.staffSchema Schema.staffData ∧
          f.evaluate Schema.staffData Schema.staffSchema = true) ∧
      sevenBadges.stored? Schema.staffSchema Schema.staffData =
        some (.list [.complex [("number", .string "7")]]) := by
  have hregistered : sevenBadges.Registered ⟨Schema.staffSchema.uris⟩ := by
    refine ⟨by decide +kernel, fun s hs => ?_⟩
    obtain rfl := Option.some.inj hs
    decide +kernel
  refine ⟨hregistered, fun f hf => ⟨selects_exactly hregistered hf _ _, ?_⟩, ?_⟩
  · obtain rfl := Option.some.inj hf
    decide +kernel
  · rfl

end PatchPath

end Scim
