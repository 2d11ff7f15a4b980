import Mathlib.Data.List.MinMax
import Scim.Filter.Check
import Scim.Proofs.Filter.Soundness
import Scim.Proofs.Patch.Selection
import Scim.Proofs.Record.ReadBack

/-!
  # Two ways to compare elements

  What is said of the elements of an attribute can be said of the attribute as a whole, or in square
  brackets of each element by itself.  The first reads the attribute at once and takes apart the list
  that was found; the second takes the elements first and reads each of them.

    * An attribute without sub-attributes is its own sub-attribute `value` in brackets.  What brackets
      see is a complex attribute that could be built (`Attribute.build_elements`), so that any filter
      may be asked of that one instead (`Filter.holdsForAny_build`).  It is compared as the attribute
      is, so that `uses eq "x"` and `uses[value eq "x"]` are checked and decided alike
      (`Filter.bracketed_value`).
    * `crates.size eq 2` and `crates[size eq 2]` compare the same values, as long as none of several
      crates has a list for its size (`Record.candidates_getSub?`).  With a dot, such a list is compared
      as one value, in brackets by its items.  There always is a comparison that shows this: the
      largest of the lists is not in any of them, so that brackets do not find it
      (`Record.exists_not_mem_subValues`).
-/

namespace Scim

/-! ## The two ways -/

namespace Filter

/-- A comparison of a sub-attribute, written with a dot. -/
def dotted (r : Reference) (sub : Name) (c : Comparison) : Filter := .leaf ⟨r.child sub, c⟩

/-- A comparison of a sub-attribute, written in square brackets. -/
def bracketed (r : Reference) (sub : Name) (c : Comparison) : Filter :=
  .complex r (.leaf ⟨.plain ⟨sub, none⟩, c⟩)

end Filter

section

variable {s : Schema} {r : Reference} {a : Attribute} {sub : Name} {d : SubAttribute} {data : Record}

/-- A comparison of an attribute that is not complex speaks of that attribute. -/
theorem Scope.target?_of_simple {scope : Scope} (h : scope.attribute? r = some a)
    (hsimple : a.isComplex = false) (c : Comparison) : scope.target? ⟨r, c⟩ = some (r, a) := by
  simp [target?, h, hsimple]

/-- In square brackets a name is that of a sub-attribute. -/
theorem Scope.target?_element {subs : AttributeSet SimpleKind} (h : subs.find? sub = some d)
    (c : Comparison) :
    (Scope.element subs).target? ⟨.plain ⟨sub, none⟩, c⟩ =
      some (.plain ⟨sub, none⟩, SubAttribute.lift d) := by
  have hattr : (Scope.element subs).attribute? (.plain ⟨sub, none⟩) =
      some (SubAttribute.lift d) := by
    show (subs.find? sub).map SubAttribute.lift = _
    rw [h, Option.map_some]
  exact target?_of_simple hattr rfl c

namespace Filter

/-- A comparison of an attribute that is not complex is tried on what was read of it. -/
theorem evaluate_leaf (hattr : s.attributeOf? r = some a) (hsimple : a.isComplex = false)
    (c : Comparison) :
    (Filter.leaf ⟨r, c⟩).evaluate data s =
      (Comparison.candidates ((Scope.resource s).value? data r)).any (c.holds a) := by
  have hscope : (Scope.resource s).attribute? r = some a := hattr
  show AttributeFilter.holds ⟨r, c⟩ (.resource s) data = _
  rw [AttributeFilter.holds, Scope.target?_of_simple hscope hsimple]

/-- In square brackets a comparison is tried on what was read of each element. -/
theorem evaluate_bracketed (hattr : s.attributeOf? r = some a)
    (hfind : a.elementSubs.find? sub = some d) {value : Value}
    (hvalue : (Scope.resource s).value? data r = some value) (c : Comparison) :
    (bracketed r sub c).evaluate data s =
      ((elements value).filterMap a.elementRecord?).any fun fields =>
        (Comparison.candidates (Record.get? fields sub.text)).any
          (c.holds (SubAttribute.lift d)) := by
  have hscope : (Scope.resource s).attribute? r = some a := hattr
  rw [bracketed, evaluate, holds, hscope, hvalue]
  refine any_eq_of_forall_mem fun fields _ => ?_
  rw [holds, AttributeFilter.holds, Scope.target?_element hfind]
  rfl

end Filter

end

/-! ## An attribute as its own sub-attribute -/

namespace Attribute

variable {a : Attribute} {k : SimpleKind}

theorem isComplex_of_simple (hkind : a.kind = .simple k) : a.isComplex = false := by
  rw [isComplex, hkind]

/-- What stands under `value` in brackets has the type of the attribute. -/
theorem type_ownValue (hkind : a.kind = .simple k) :
    (SubAttribute.lift (a.ownValue k)).type = a.type := by
  have htype : a.type = k.type := by rw [type, hkind]
  exact htype.symm

/-- In brackets, `value` is the name that is found. -/
theorem find?_ownValue (hkind : a.kind = .simple k) :
    a.elementSubs.find? Name.value = some (a.ownValue k) := by
  simp [elementSubs, hkind, AttributeSet.find?, AttributeSet.findKey?, ownValue]

/-- The complex attribute that brackets see can be built: it has the sub-attribute `value` only, of
    the kind and case exactness of the attribute itself. -/
theorem build_elements (hkind : a.kind = .simple k) :
    build "value" (some k) [] { caseExact := a.caseExact } =
        .ok (SubAttribute.lift (a.ownValue k)) ∧
      build a.name.text none [SubAttribute.lift (a.ownValue k)] { multiValued := true } =
        .ok { name := a.name, multiValued := true, kind := .complex a.elementSubs } := by
  have hname : Name.parse a.name.text = .ok a.name := by simp [Name.parse, a.name.valid]
  -- the one sub-attribute meets no other of its name
  have hsubs : AttributeSet.empty.add (a.ownValue k) = .ok a.elementSubs := by
    simp [AttributeSet.add, AttributeSet.empty, AttributeOf.keys, elementSubs, hkind]
  refine ⟨rfl, ?_⟩
  have hadd : addSub a.name .empty (SubAttribute.lift (a.ownValue k)) = .ok a.elementSubs := hsubs
  simp only [build, hname, Except.mapError, bind, Except.bind, List.foldlM_cons, hadd]
  rfl

end Attribute

/-- Whatever is asked of the elements of an attribute without sub-attributes may be asked of the
    complex attribute that brackets see, once each element that is there stands in a record of its
    own. -/
theorem Filter.holdsForAny_build {a value elements : Attribute} {k : SimpleKind}
    (hkind : a.kind = .simple k)
    (hvalue : Attribute.build "value" (some k) [] { caseExact := a.caseExact } = .ok value)
    (helements : Attribute.build a.name.text none [value] { multiValued := true } = .ok elements)
    (f : Filter) (items : List Value) :
    f.holdsForAny a items = f.holdsForAny elements
      ((items.filter fun item => !item.isNull).map fun item =>
        .complex (Record.single "value" item)) := by
  obtain ⟨hbuilt, hbuilt'⟩ := Attribute.build_elements hkind
  obtain rfl := Except.ok.inj (hvalue.symm.trans hbuilt)
  obtain rfl := Except.ok.inj (helements.symm.trans hbuilt')
  -- null is left out, and every other item is seen as a record with the key `value`
  have hrecords : items.filterMap a.elementRecord? =
      (items.filter fun item => !item.isNull).map (Record.single "value") := by
    induction items with
    | nil => rfl
    | cons item rest ih =>
      cases hnull : item.isNull <;> simp [Attribute.elementRecord?, hkind, hnull] at ih ⊢ <;>
        exact ih
  rw [holdsForAny, holdsForAny, hrecords, List.filterMap_map, ← List.filterMap_eq_map']
  rfl

/-- A comparison looks at the type and the case exactness of an attribute only. -/
theorem Comparison.holds_congr {a b : Attribute} (htype : a.type = b.type)
    (hcase : a.caseExact = b.caseExact) (c : Comparison) : c.holds a = c.holds b := by
  have hcomparable : a.comparable = b.comparable := by
    funext value
    simp only [Attribute.comparable, htype, hcase]
  funext value
  simp only [holds, hcomparable]

/-- What is wrong with a comparison depends on the type of the attribute only. -/
theorem Comparison.error?_congr {a b : Attribute} (htype : a.type = b.type) (c : Comparison) :
    c.error? a = c.error? b := by
  simp only [error?, htype]

/-- A value that is no list is tried as it is. -/
theorem Comparison.candidates_some {value : Value} (h : value.list? = none) :
    candidates (some value) = [value] := by
  cases value with
  | list items => simp [Value.list?] at h
  | _ => rfl

/-- If a value has elements, then these are tried. -/
theorem Comparison.candidates_elements {value : Value} (h : Filter.elements value ≠ []) :
    candidates (some value) = Filter.elements value := by
  cases value with
  | list items =>
    cases items with
    | nil => exact absurd rfl h
    | cons item rest => rfl
  | _ => rfl

namespace Filter

variable {s : Schema} {r : Reference} {a : Attribute} {k : SimpleKind}

/-- Brackets around `value` are checked as the attribute itself. -/
theorem check_bracketed_value (hattr : s.attributeOf? r = some a) (hkind : a.kind = .simple k)
    (c : Comparison) : (bracketed r .value c).check s = (Filter.leaf ⟨r, c⟩).check s := by
  have hsimple := Attribute.isComplex_of_simple hkind
  have hscope : (Scope.resource s).attribute? r = some a := hattr
  -- on either side one comparison is checked, of attributes of one type
  have hinner : (bracketed r .value c).errorsIn (.resource s) =
      (c.error? (SubAttribute.lift (a.ownValue k))).toList := by
    simp only [bracketed, errorsIn, hscope, AttributeFilter.error?,
      Scope.target?_element (Attribute.find?_ownValue hkind), Option.bind_some]
  have houter : (Filter.leaf ⟨r, c⟩).errorsIn (.resource s) = (c.error? a).toList := by
    simp only [errorsIn, AttributeFilter.error?, Scope.target?_of_simple hscope hsimple,
      Option.bind_some]
  rw [check, check, hinner, houter, Comparison.error?_congr (Attribute.type_ownValue hkind)]

/-- Brackets around `value` are decided as the attribute itself, where its elements are neither null
    nor lists. -/
theorem evaluate_bracketed_value (hattr : s.attributeOf? r = some a) (hkind : a.kind = .simple k)
    {data : Record} {value : Value} (hvalue : (Scope.resource s).value? data r = some value)
    (hfilled : elements value ≠ [])
    (hflat : ∀ element ∈ elements value, element.isNull = false ∧ element.list? = none)
    (c : Comparison) :
    (bracketed r .value c).evaluate data s = (Filter.leaf ⟨r, c⟩).evaluate data s := by
  have hsimple := Attribute.isComplex_of_simple hkind
  have hholds : c.holds (SubAttribute.lift (a.ownValue k)) = c.holds a :=
    Comparison.holds_congr (Attribute.type_ownValue hkind) rfl c
  have hrecords : (elements value).filterMap a.elementRecord? =
      (elements value).map (Record.single "value") := by
    rw [← List.filterMap_eq_map]
    refine List.filterMap_congr fun element hmem => ?_
    simp [Attribute.elementRecord?, hkind, (hflat element hmem).1]
  rw [evaluate_bracketed hattr (Attribute.find?_ownValue hkind) hvalue, evaluate_leaf hattr hsimple,
    hvalue, Comparison.candidates_elements hfilled, hrecords, List.any_map, hholds]
  -- an element by itself, and the same element under the key `value`
  refine any_eq_of_forall_mem fun element hmem => ?_
  have hget : Record.get? (Record.single "value" element) Name.value.text = some element := by
    simp [Record.single, Record.get?, Record.sameKey, Name.value]
  rw [Function.comp_apply, hget, Comparison.candidates_some (hflat element hmem).2, List.any_cons,
    List.any_nil, Bool.or_false]

/-- A comparison of an attribute without sub-attributes has the same errors as the comparison of its
    elements under the name `value`, and the same verdict where there are elements that are neither
    null nor lists. -/
theorem bracketed_value (hattr : s.attributeOf? r = some a) (hkind : a.kind = .simple k)
    (c : Comparison) :
    (bracketed r .value c).check s = (Filter.leaf ⟨r, c⟩).check s ∧
      ∀ (data : Record) (value : Value), (Scope.resource s).value? data r = some value →
        elements value ≠ [] →
        (∀ element ∈ elements value, element.isNull = false ∧ element.list? = none) →
        (bracketed r .value c).evaluate data s = (Filter.leaf ⟨r, c⟩).evaluate data s :=
  ⟨check_bracketed_value hattr hkind c, fun _ _ hvalue hfilled hflat =>
    evaluate_bracketed_value hattr hkind hvalue hfilled hflat c⟩

/-- The sub-attribute that holds the size of a crate. -/
def crateSize : SubAttribute where
  name := ⟨"size", by decide +kernel⟩
  kind := .integer

/-- The sub-attribute that holds the labels of a crate. -/
def crateLabels : SubAttribute where
  name := ⟨"labels", by decide +kernel⟩
  kind := .string
  multiValued := true

/-- The sub-attributes of a crate. -/
def crateSubs : AttributeSet SimpleKind := ⟨[crateSize, crateLabels], by decide +kernel⟩

/-- Crates, each with any number of labels. -/
def crates : Attribute where
  name := ⟨"crates", by decide +kernel⟩
  kind := .complex crateSubs
  multiValued := true

/-- What the depot is used for. -/
def uses : Attribute where
  name := ⟨"uses", by decide +kernel⟩
  kind := .simple .string
  multiValued := true

/-- The schema of a depot. -/
def depotSchema : Schema where
  uri := ⟨"urn:Depot", false, by decide +kernel⟩
  name := "Depot"
  endpoint := "/Depots"
  description := "Depots"
  attributes := ⟨CommonAttribute.all ++ [crates, uses], by decide +kernel⟩
  extensions := []
  isBase := rfl
  distinct := by decide +kernel
  common := List.prefix_append _ _

/-- Two crates, one of them with two labels. -/
def crateList : List Value :=
  [ .complex [("size", .integer 2), ("labels", .list [.string "x", .string "y"])],
    .complex [("size", .integer 3)] ]

/-- A depot with these crates. -/
def depotData : Record :=
  [("crates", .list crateList), ("uses", .list [.string "Storage", .string "transit"])]

/-- The reference to the crates. -/
def cratesRef : Reference := .plain ⟨crates.name, none⟩

/-- The reference to the uses. -/
def usesRef : Reference := .plain ⟨uses.name, none⟩

/-- A depot is used for storage, however that is written and asked for. -/
theorem bracketed_value_uses :
    depotSchema.attributeOf? usesRef = some uses ∧ uses.kind = .simple .string ∧
      (bracketed usesRef .value (.binary .equal (.string "STORAGE"))).check depotSchema =
        (Filter.leaf ⟨usesRef, .binary .equal (.string "STORAGE")⟩).check depotSchema ∧
      (bracketed usesRef .value (.binary .equal (.string "STORAGE"))).evaluate depotData
        depotSchema = true ∧
      (Filter.leaf ⟨usesRef, .binary .equal (.string "STORAGE")⟩).evaluate depotData
        depotSchema = true := by
  have ⟨hcheck, hevaluate⟩ := bracketed_value (s := depotSchema) (r := usesRef) (a := uses) rfl rfl
    (.binary .equal (.string "STORAGE"))
  have hholds : (bracketed usesRef .value (.binary .equal (.string "STORAGE"))).evaluate depotData
      depotSchema = true := by decide +kernel
  refine ⟨rfl, rfl, hcheck, hholds, ?_⟩
  rw [← hevaluate depotData (.list [.string "Storage", .string "transit"]) rfl
    (List.cons_ne_nil _ _) (by decide +kernel), hholds]

end Filter

/-! ## Reading a sub-attribute -/

namespace Schema

variable {s : Schema} {a : Attribute} {subs : AttributeSet SimpleKind} {sub : Name}
  {d : SubAttribute}

/-- A path to an attribute leads on to its sub-attributes, and to no deeper ones. -/
theorem Part.attribute?_child {p : Part} {path : Path} (h : p.attribute? path = some a)
    (hsubs : a.subs? = some subs) (hfind : subs.find? sub = some d) :
    path.sub = none ∧ p.attribute? (path.child sub) = some (SubAttribute.lift d) := by
  obtain ⟨b, hb, ⟨hnone, rfl⟩ | ⟨name, subs', sub', -, -, -, rfl⟩⟩ := Part.attribute?_eq_some h
  · refine ⟨hnone, ?_⟩
    simp only [Part.attribute?, Path.child, hb, hsubs, hfind, Option.bind_eq_bind, Option.bind_some,
      Option.map_some]
  · -- a sub-attribute has none of its own
    cases hsubs

/-- Where a path to a sub-attribute leads somewhere, so does the path to its attribute. -/
theorem Part.isSome_attribute?_of_child {p : Part} {path : Path} (hnone : path.sub = none)
    (h : (p.attribute? (path.child sub)).isSome = true) : (p.attribute? path).isSome = true := by
  obtain ⟨target, htarget⟩ := Option.isSome_iff_exists.mp h
  obtain ⟨b, hb, -⟩ := Part.attribute?_eq_some htarget
  have hb : p.attributes.find? path.attr = some b := hb
  simp [Part.attribute?, hb, hnone]

/-- The sub-attribute of an attribute is bound to the part that the attribute is bound to: no part
    before it has an attribute of that name. -/
theorem resolve?_child {r : Reference} {q : Qualified} (hresolve : s.resolve? r = some q)
    (hattr : s.attribute? q = some a) (hsubs : a.subs? = some subs)
    (hfind : subs.find? sub = some d) :
    q.path.sub = none ∧ s.resolve? (r.child sub) = some (q.child sub) ∧
      s.attribute? (q.child sub) = some (SubAttribute.lift d) := by
  obtain ⟨p, hp, htarget⟩ := Option.bind_eq_some_iff.mp hattr
  obtain ⟨hnone, hchild⟩ := Part.attribute?_child htarget hsubs hfind
  have hfound : s.attribute? (q.child sub) = some (SubAttribute.lift d) :=
    Option.bind_eq_some_iff.mpr ⟨p, hp, hchild⟩
  refine ⟨hnone, ?_, hfound⟩
  cases r with
  | qualified q' =>
    simp only [resolve?, Option.ite_none_right_eq_some, Option.some.injEq] at hresolve
    obtain ⟨-, rfl⟩ := hresolve
    simp [resolve?, Reference.child, hfound]
  -- a path without a schema goes to the first part that has it, which is the same for both
  | plain path =>
    obtain ⟨p', hfirst, rfl⟩ := Option.map_eq_some_iff.mp hresolve
    obtain rfl : p' = p := by
      rw [part?_uri (List.mem_of_find?_eq_some hfirst)] at hp
      exact Option.some.inj hp
    obtain ⟨-, before, after, hsplit, hbefore⟩ := List.find?_eq_some_iff_append.mp hfirst
    refine Option.map_eq_some_iff.mpr ⟨p', List.find?_eq_some_iff_append.mpr ?_, rfl⟩
    refine ⟨by rw [hchild, Option.isSome_some], before, after, hsplit, fun other hother => ?_⟩
    have hlacks : (other.attribute? path).isSome = false := by simpa using hbefore other hother
    have hlacksChild : (other.attribute? (path.child sub)).isSome = false := by
      refine Bool.eq_false_iff.mpr fun hsome => ?_
      exact absurd (Part.isSome_attribute?_of_child hnone hsome) (Bool.eq_false_iff.mp hlacks)
    rw [hlacksChild, Bool.not_false]

end Schema

/-- A sub-attribute is read from what its attribute is read as. -/
theorem Record.getAt?_child (data : Record) {q : Qualified} (hnone : q.path.sub = none) (sub : Name)
    (lacking : Value) :
    getAt? data (.ofQualified (q.child sub)) lacking =
      (getAt? data (.ofQualified q) lacking).bind fun value => getSub? value sub lacking := by
  have hpath : ∀ fields : Record, getPath? fields (q.path.child sub) lacking =
      (getPath? fields q.path lacking).bind fun value => getSub? value sub lacking := by
    intro fields
    simp only [getPath?, Path.child, hnone, Option.bind_eq_bind]
    cases get? fields q.path.attr.text <;> rfl
  show getAt? data (.attr (if q.schema.isExtension then some q.schema else none) _) lacking =
    (getAt? data (.attr (if q.schema.isExtension then some q.schema else none) _) lacking).bind _
  -- the values of an extension lie one level deeper
  cases q.schema.isExtension with
  | false => exact hpath data
  | true =>
    simp only [if_true, getAt?, Qualified.child, hpath, Option.bind_eq_bind, Option.bind_assoc]

section

variable {s : Schema} {r : Reference} {a : Attribute} {subs : AttributeSet SimpleKind} {sub : Name}
  {d : SubAttribute} {data : Record} {value : Value}

/-- A comparison with a dot is tried on what the attribute as a whole gives for the sub-attribute. -/
theorem Filter.evaluate_dotted (hattr : s.attributeOf? r = some a) (hsubs : a.subs? = some subs)
    (hfind : subs.find? sub = some d) (hvalue : (Scope.resource s).value? data r = some value)
    (c : Comparison) :
    (dotted r sub c).evaluate data s =
      (Comparison.candidates (Record.getSub? value sub .null)).any
        (c.holds (SubAttribute.lift d)) := by
  obtain ⟨q, hresolve, hq⟩ := Option.bind_eq_some_iff.mp hattr
  obtain ⟨hnone, hchild, hfound⟩ := Schema.resolve?_child hresolve hq hsubs hfind
  have hattrChild : s.attributeOf? (r.child sub) = some (SubAttribute.lift d) :=
    Option.bind_eq_some_iff.mpr ⟨_, hchild, hfound⟩
  have hread : Record.getAt? data (.ofQualified q) .null = some value := by
    simpa [Scope.value?, hresolve] using hvalue
  have hreadChild : (Scope.resource s).value? data (r.child sub) =
      Record.getSub? value sub .null := by
    simp only [Scope.value?, hchild, Option.bind_eq_bind, Option.bind_some,
      Record.getAt?_child data hnone, hread]
  rw [dotted, evaluate_leaf hattrChild rfl, hreadChild]

end

/-! ## The values that are compared -/

/-- The value has elements, all of them records. -/
def Value.OfRecords (value : Value) : Prop :=
  Filter.elements value ≠ [] ∧ ∀ element ∈ Filter.elements value, ∃ fields, element = .complex fields

namespace Record

/-- The values of a sub-attribute, read from each element by itself. -/
def subValues (value : Value) (sub : Name) : List Value :=
  ((Filter.elements value).filterMap Value.complex?).flatMap fun fields =>
    Comparison.candidates (get? fields sub.text)

/-- The lists that the elements of a list have for a sub-attribute. -/
def innerLists (value : Value) (sub : Name) : List (List Value) :=
  match value with
  | .list items =>
    items.filterMap fun item =>
      (item.complex?.bind fun fields => get? fields sub.text).bind Value.list?
  | _ => []

variable {value v : Value} {sub : Name} {inner : List Value}

/-- A value of the sub-attribute is one that some element has. -/
theorem mem_subValues : v ∈ subValues value sub ↔
    ∃ fields, .complex fields ∈ Filter.elements value ∧
      v ∈ Comparison.candidates (get? fields sub.text) := by
  constructor
  · intro h
    obtain ⟨fields, hfields, hv⟩ := List.mem_flatMap.mp h
    obtain ⟨element, helement, hrecord⟩ := List.mem_filterMap.mp hfields
    obtain rfl := Value.eq_complex_of_complex? hrecord
    exact ⟨fields, helement, hv⟩
  · rintro ⟨fields, helement, hv⟩
    have hfields : fields ∈ (Filter.elements value).filterMap Value.complex? :=
      List.mem_filterMap.mpr ⟨_, helement, rfl⟩
    exact List.mem_flatMap.mpr ⟨fields, hfields, hv⟩

/-- An inner list is the value that some element of a list has. -/
theorem mem_innerLists : inner ∈ innerLists value sub ↔
    ∃ items, value = .list items ∧ ∃ fields, .complex fields ∈ items ∧
      get? fields sub.text = some (.list inner) := by
  constructor
  · intro h
    cases value with
    | list items =>
      obtain ⟨item, hitem, hfound⟩ := List.mem_filterMap.mp h
      obtain ⟨stored, hread, hlist⟩ := Option.bind_eq_some_iff.mp hfound
      obtain ⟨fields, hrecord, hget⟩ := Option.bind_eq_some_iff.mp hread
      obtain rfl := Value.eq_complex_of_complex? hrecord
      -- of the values that elements have, only lists count
      cases stored with
      | list inner' =>
        obtain rfl := Option.some.inj hlist
        exact ⟨items, rfl, fields, hitem, hget⟩
      | _ => nomatch hlist
    | _ => nomatch h
  · rintro ⟨items, rfl, fields, hitem, hget⟩
    refine List.mem_filterMap.mpr ⟨.complex fields, hitem, ?_⟩
    simp [Value.complex?, hget, Value.list?]

/-- With a dot, the elements of a list are compared by what each of them has. -/
theorem candidates_getSub?_list {items : List Value} (h : items ≠ []) :
    Comparison.candidates (getSub? (.list items) sub .null) = items.map (getSubD sub .null) := by
  have hfilled : Filter.elements (.list (items.map (getSubD sub .null))) ≠ [] :=
    mt List.map_eq_nil_iff.mp h
  rw [getSub?_list, Comparison.candidates_elements hfilled]
  rfl

/-- So a list that an element has is compared as one value. -/
theorem mem_candidates_of_mem_innerLists (h : inner ∈ innerLists value sub) :
    .list inner ∈ Comparison.candidates (getSub? value sub .null) := by
  obtain ⟨items, rfl, fields, hmem, hget⟩ := mem_innerLists.mp h
  have hread : getSubD sub .null (.complex fields) = .list inner := by
    simp [getSubD, Value.complex?, hget]
  rw [candidates_getSub?_list (List.ne_nil_of_mem hmem), ← hread]
  exact List.mem_map_of_mem hmem

/-- In brackets only what such lists hold is compared. -/
theorem exists_innerLists_of_mem_subValues {items : List Value}
    (h : .list inner ∈ subValues (.list items) sub) :
    ∃ outer ∈ innerLists (.list items) sub, .list inner ∈ outer := by
  obtain ⟨fields, hitem, hmem⟩ := mem_subValues.mp h
  obtain hnull | ⟨stored, hget, hmem⟩ := Comparison.mem_candidates hmem
  · nomatch hnull
  · cases stored with
    | list outer => exact ⟨outer, mem_innerLists.mpr ⟨items, rfl, fields, hitem, hget⟩, hmem⟩
    | _ => nomatch List.mem_singleton.mp hmem

/-- If there are such lists, the largest of them is compared with a dot, but not in brackets. -/
theorem exists_not_mem_subValues (h : innerLists value sub ≠ []) :
    ∃ v ∈ Comparison.candidates (getSub? value sub .null), v ∉ subValues value sub := by
  obtain ⟨largest, hlargest⟩ : ∃ l, (innerLists value sub).argmax sizeOf = some l :=
    Option.ne_none_iff_exists'.mp (mt List.argmax_eq_none.mp h)
  have hmem : largest ∈ innerLists value sub := List.argmax_mem hlargest
  refine ⟨.list largest, mem_candidates_of_mem_innerLists hmem, fun hsub => ?_⟩
  obtain ⟨items, rfl, -⟩ := mem_innerLists.mp hmem
  obtain ⟨outer, houter, hinside⟩ := exists_innerLists_of_mem_subValues hsub
  have hle : sizeOf outer ≤ sizeOf largest := List.le_of_mem_argmax houter hlargest
  have hlt : sizeOf (Value.list largest) < sizeOf outer := List.sizeOf_lt_of_mem hinside
  simp only [Value.list.sizeOf_spec] at hlt
  omega

/-- What is no list is compared as it is, and what is missing as null. -/
theorem candidates_get? {fields : Record} (h : ∀ inner, get? fields sub.text ≠ some (.list inner)) :
    Comparison.candidates (get? fields sub.text) = [getSubD sub .null (.complex fields)] := by
  have hread : getSubD sub .null (.complex fields) = (get? fields sub.text).getD .null := rfl
  rw [hread]
  cases hget : get? fields sub.text with
  | none => rfl
  | some stored =>
    cases stored with
    | list inner => exact absurd hget (h inner)
    | _ => rfl

/-- Without inner lists, each record gives one value both with a dot and in brackets. -/
theorem map_getSubD_records {items : List Value}
    (hrecords : ∀ item ∈ items, ∃ fields, item = .complex fields)
    (h : ∀ fields, .complex fields ∈ items → ∀ inner, get? fields sub.text ≠ some (.list inner)) :
    items.map (getSubD sub .null) = subValues (.list items) sub := by
  induction items with
  | nil => rfl
  | cons item rest ih =>
    obtain ⟨fields, rfl⟩ := hrecords item List.mem_cons_self
    have hrest := ih (fun item hmem => hrecords item (List.mem_cons_of_mem _ hmem))
      fun fields hmem => h fields (List.mem_cons_of_mem _ hmem)
    have hfirst := candidates_get? (h fields List.mem_cons_self)
    -- the values of the first record, and those of the others
    show _ :: _ = Comparison.candidates (get? fields sub.text) ++ subValues (.list rest) sub
    rw [hfirst, ← hrest, List.singleton_append]

/-- Otherwise the same values are compared. -/
theorem candidates_getSub? (hrecords : value.OfRecords) (h : innerLists value sub = []) :
    Comparison.candidates (getSub? value sub .null) = subValues value sub := by
  obtain ⟨hfilled, hrecords⟩ := hrecords
  cases value with
  | complex fields => exact (List.append_nil _).symm
  | list items =>
    -- no inner lists means that none of the elements has one
    have hflat : ∀ fields, .complex fields ∈ items → ∀ inner,
        get? fields sub.text ≠ some (.list inner) := by
      intro fields hmem inner hget
      have hinner : inner ∈ innerLists (.list items) sub :=
        mem_innerLists.mpr ⟨items, rfl, fields, hmem, hget⟩
      rw [h] at hinner
      nomatch hinner
    exact (candidates_getSub?_list hfilled).trans (map_getSubD_records hrecords hflat)
  | _ =>
    obtain ⟨fields, hfields⟩ := hrecords _ List.mem_cons_self
    nomatch hfields

end Record

/-! ## Dots and brackets -/

/-- If comparisons hold for the same lists of values, one list holds no value that the other lacks. -/
theorem Comparison.mem_of_any_eq {a : Attribute} {values values' : List Value}
    (h : ∀ c : Comparison, values.any (c.holds a) = values'.any (c.holds a)) {v : Value}
    (hv : v ∈ values) : v ∈ values' := by
  classical
  -- the comparison with this value alone
  let only : UnaryOperator := ⟨"is", fun w => decide (w = v)⟩
  have hholds : values.any ((Comparison.unary only).holds a) = true :=
    List.any_eq_true.mpr ⟨v, hv, decide_eq_true rfl⟩
  rw [h] at hholds
  obtain ⟨w, hw, hsame⟩ := List.any_eq_true.mp hholds
  obtain rfl : w = v := of_decide_eq_true hsame
  exact hw

namespace Filter

variable {s : Schema} {r : Reference} {a : Attribute} {subs : AttributeSet SimpleKind} {sub : Name}
  {d : SubAttribute} {data : Record} {value : Value}

/-- In brackets a comparison is tried on the values that the elements have, each by itself. -/
theorem evaluate_bracketed_complex (hattr : s.attributeOf? r = some a) (hsubs : a.subs? = some subs)
    (hfind : subs.find? sub = some d) (hvalue : (Scope.resource s).value? data r = some value)
    (c : Comparison) :
    (bracketed r sub c).evaluate data s =
      (Record.subValues value sub).any (c.holds (SubAttribute.lift d)) := by
  have hkind := Attribute.kind_of_subs? hsubs
  have helements : a.elementSubs.find? sub = some d := by
    simpa only [Attribute.elementSubs, hkind] using hfind
  have hrecord : a.elementRecord? = Value.complex? := by
    funext element
    simp only [Attribute.elementRecord?, hkind]
  rw [evaluate_bracketed hattr helements hvalue, hrecord, Record.subValues, List.any_flatMap]

/-- In brackets, a comparison of a sub-attribute holds if it holds for one of the values that the
    sub-attribute has in one of the elements.  With a dot it says the same, just if no element of a
    list has a list for the sub-attribute. -/
theorem dotted_eq_bracketed_iff (hattr : s.attributeOf? r = some a) (hsubs : a.subs? = some subs)
    (hfind : subs.find? sub = some d) (hvalue : (Scope.resource s).value? data r = some value)
    (hrecords : value.OfRecords) :
    (∀ c : Comparison, (bracketed r sub c).evaluate data s = true ↔
      ∃ fields, .complex fields ∈ elements value ∧
        ∃ v ∈ Comparison.candidates (Record.get? fields sub.text),
          c.holds (SubAttribute.lift d) v = true) ∧
    ((∀ c : Comparison, (dotted r sub c).evaluate data s = (bracketed r sub c).evaluate data s) ↔
      Record.innerLists value sub = []) := by
  have hdotted := evaluate_dotted hattr hsubs hfind hvalue
  have hbracketed := evaluate_bracketed_complex hattr hsubs hfind hvalue
  refine ⟨fun c => ?_, fun h => ?_, fun h c => ?_⟩
  · rw [hbracketed, List.any_eq_true]
    constructor
    · rintro ⟨v, hv, hholds⟩
      obtain ⟨fields, helement, hv⟩ := Record.mem_subValues.mp hv
      exact ⟨fields, helement, v, hv, hholds⟩
    · rintro ⟨fields, helement, v, hv, hholds⟩
      exact ⟨v, Record.mem_subValues.mpr ⟨fields, helement, hv⟩, hholds⟩
  · -- a comparison that only tells the largest inner list finds it with a dot and not in brackets
    by_contra hinner
    obtain ⟨v, hv, hlacks⟩ := Record.exists_not_mem_subValues hinner
    have hagree : ∀ c : Comparison,
        (Comparison.candidates (Record.getSub? value sub .null)).any
            (c.holds (SubAttribute.lift d)) =
          (Record.subValues value sub).any (c.holds (SubAttribute.lift d)) := by
      intro c
      rw [← hdotted, ← hbracketed, h]
    exact hlacks (Comparison.mem_of_any_eq hagree hv)
  · rw [hdotted, hbracketed, Record.candidates_getSub? hrecords h]

theorem ofRecords_crateList : (Value.list crateList).OfRecords := by
  refine ⟨List.cons_ne_nil _ _, ?_⟩
  simp [elements, crateList]

/-- A crate has one size, so that sizes are compared alike with a dot and in brackets. -/
theorem dotted_eq_bracketed_crateSize :
    depotSchema.attributeOf? cratesRef = some crates ∧ crates.subs? = some crateSubs ∧
      crateSubs.find? crateSize.name = some crateSize ∧
      (∃ value, (Scope.resource depotSchema).value? depotData cratesRef = some value ∧
        value.OfRecords ∧ Record.innerLists value crateSize.name = []) ∧
      ∀ c : Comparison, (dotted cratesRef crateSize.name c).evaluate depotData depotSchema =
        (bracketed cratesRef crateSize.name c).evaluate depotData depotSchema := by
  have hvalue : (Scope.resource depotSchema).value? depotData cratesRef =
      some (.list crateList) := rfl
  have hinner : Record.innerLists (.list crateList) crateSize.name = [] := rfl
  refine ⟨rfl, rfl, rfl, ⟨_, hvalue, ofRecords_crateList, hinner⟩, ?_⟩
  exact (dotted_eq_bracketed_iff rfl rfl rfl hvalue ofRecords_crateList).2.mpr hinner

/-- A crate with the labels x and y has the label x in brackets, but not with a dot.  So it is not
    true that the two always say the same. -/
theorem dotted_ne_bracketed_crateLabels :
    (dotted cratesRef crateLabels.name (.binary .equal (.string "x"))).evaluate depotData
        depotSchema = false ∧
      (bracketed cratesRef crateLabels.name (.binary .equal (.string "x"))).evaluate depotData
        depotSchema = true ∧
      ¬ ∀ (s : Schema) (r : Reference) (a : Attribute) (subs : AttributeSet SimpleKind) (sub : Name)
        (d : SubAttribute) (data : Record) (value : Value) (c : Comparison),
        s.attributeOf? r = some a → a.subs? = some subs → subs.find? sub = some d →
        (Scope.resource s).value? data r = some value → value.OfRecords →
        (dotted r sub c).evaluate data s = (bracketed r sub c).evaluate data s := by
  have hdotted : (dotted cratesRef crateLabels.name (.binary .equal (.string "x"))).evaluate
      depotData depotSchema = false := by decide +kernel
  have hbracketed : (bracketed cratesRef crateLabels.name (.binary .equal (.string "x"))).evaluate
      depotData depotSchema = true := by decide +kernel
  refine ⟨hdotted, hbracketed, fun halways => ?_⟩
  have hsame := halways depotSchema cratesRef crates crateSubs crateLabels.name crateLabels depotData
    (.list crateList) (.binary .equal (.string "x")) rfl rfl rfl rfl ofRecords_crateList
  rw [hdotted, hbracketed] at hsame
  nomatch hsame

end Filter

end Scim
