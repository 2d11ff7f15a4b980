import Scim.Proofs.Attribute.Kinds
import Scim.Proofs.Filter.Applications
import Scim.Proofs.Filter.Registered
import Scim.Proofs.Schema.Creation
import Scim.Proofs.Schema.Projection

/-!
  # Checked filters compare values of one kind

  The check of a filter and its evaluation go through the filter each by itself: one looks at the
  declarations of a schema, the other at the data of a resource.  They agree.  Of a filter that the
  check has nothing to say about, and of sound data, no comparison is decided by a difference of
  kinds (`Filter.comparable_of_check`).

    * What carries the induction is a property of scopes: all that a reference finds is null or of
      the kind of what it is declared as (`Scope.Takes`).
    * A resource has it (`Schema.takes_resource`), since what a reference is bound to lies in the
      data of its part.  A sub-attribute of a list is read from each of its elements, hence it must
      not be a list in its turn (`Schema.SingleSubs`).
    * An element has it (`Scope.takes_element`), whether it is a record or seen as one
      (`Attribute.takes_elementRecord?`).
-/

namespace Scim

/-! ## Elements -/

/-- All that a reference finds is null or of the kind that is declared. -/
def Scope.Takes (c : Catalog) (scope : Scope) (data : Record) : Prop :=
  ∀ r : Reference, r.Registered c → ∀ a ∈ scope.attribute? r, ∀ value ∈ scope.value? data r,
    ∀ element ∈ Filter.elements value, element = .null ∨ a.kind.Takes element

/-- A filter in square brackets finds values of the declared kinds. -/
theorem Scope.takes_element (c : Catalog) {subs : AttributeSet SimpleKind} {fields : Record}
    (h : subs.Takes fields) : (Scope.element subs).Takes c fields := by
  intro r _ a ha value hvalue element hmem
  simp only [attribute?, Option.mem_def, Option.ite_none_left_eq_some, Option.map_eq_some_iff] at ha
  obtain ⟨-, sub, hfind, rfl⟩ := ha
  obtain ⟨hsub, hkey⟩ := AttributeSet.find?_eq_some hfind
  have hget : Record.get? fields sub.name.text = some value := by
    rw [Record.get?_congr hkey]
    exact hvalue
  exact Attribute.takes_of_mem_elements (a := SubAttribute.lift sub) (h sub hsub value hget) hmem

/-- An element is seen as a record with values of the declared kinds. -/
theorem Attribute.takes_elementRecord? {a : Attribute} {element : Value} {fields : Record}
    (h : element = .null ∨ a.kind.Takes element) (hrecord : a.elementRecord? element = some fields) :
    a.elementSubs.Takes fields := by
  unfold elementRecord? at hrecord
  unfold elementSubs
  cases hkind : a.kind with
  | complex subs =>
    simp only [hkind] at h hrecord ⊢
    obtain rfl := Value.eq_complex_of_complex? hrecord
    obtain ⟨fields', hfields, htakes⟩ := h.resolve_left (by simp)
    rwa [Value.complex.inj hfields]
  | simple k =>
    -- the element itself is the value of the only sub-attribute
    simp only [hkind, Option.ite_none_left_eq_some, Option.some.injEq] at h hrecord ⊢
    obtain ⟨hnull, rfl⟩ := hrecord
    intro sub hsub value hvalue
    obtain rfl := List.mem_singleton.mp hsub
    obtain rfl : element = value := by
      simpa [ownValue, Name.value, Record.single, Record.get?, Record.sameKey] using hvalue
    have htakes : k.Takes element := h.resolve_left fun he => hnull (Value.isNull_iff.mpr he)
    exact .inr (by simpa [ownValue] using htakes)

/-! ## Resources -/

namespace Schema

variable {c : Catalog} {s : Schema}

/-- The sub-attributes of an attribute with many values have one value each. -/
def SingleSubs (s : Schema) : Prop :=
  ∀ p ∈ s.parts, ∀ a ∈ p.attributes.toList, a.multiValued = true → ∀ subs ∈ Attribute.subs? a,
    ∀ sub ∈ subs.toList, sub.multiValued = false

/-- A reference is bound to an attribute of a part. -/
theorem exists_part_of_resolve? (hs : s.Registered c) {r : Reference} (hr : r.Registered c)
    {q : Qualified} (h : s.resolve? r = some q) : ∃ p ∈ s.parts, q = ⟨p.uri, q.path⟩ := by
  have hholds : ∀ p ∈ s.parts, c.Holds p.uri := fun p hp => hs _ (List.mem_map_of_mem hp)
  cases r with
  | plain path =>
    obtain ⟨p, hfind, rfl⟩ := Option.map_eq_some_iff.mp h
    exact ⟨p, List.mem_of_find?_eq_some hfind, rfl⟩
  | qualified q' =>
    simp only [resolve?, Option.ite_none_right_eq_some, Option.some.injEq] at h
    obtain ⟨hsome, rfl⟩ := h
    obtain ⟨target, htarget⟩ := Option.isSome_iff_exists.mp hsome
    obtain ⟨p, hfind, -⟩ := Option.bind_eq_some_iff.mp htarget
    have hp : p ∈ s.parts := List.mem_of_find?_eq_some hfind
    have hkey : p.uri.key = q'.schema.key := by simpa [SchemaUri.same] using List.find?_some hfind
    -- one URI, and not just the same up to case: it says where the data of the part are
    have huri : p.uri = q'.schema := (hholds p hp).eq_of_key (hr q'.schema rfl) hkey
    exact ⟨p, hp, by rw [huri]⟩

end Schema

/-- What is read of a sub-attribute is null or of its kind, from a list as from a record. -/
theorem Record.takes_getSub? {a : Attribute} {subs : AttributeSet SimpleKind} {sub : SubAttribute}
    {name : Name} {value read element : Value} (hsubs : Attribute.subs? a = some subs)
    (hform : a.HasForm a.kind.Takes value) (hsub : sub ∈ subs.toList)
    (hkey : sub.name.key = name.key) (hone : a.multiValued = true → sub.multiValued = false)
    (hread : Record.getSub? value name .null = some read) (hmem : element ∈ Filter.elements read) :
    element = .null ∨ sub.kind.Takes element := by
  have hget : ∀ fields, Record.get? fields name.text = Record.get? fields sub.name.text :=
    fun fields => Record.get?_congr hkey.symm fields
  rw [Attribute.kind_of_subs? hsubs] at hform
  rcases hform with rfl | hform
  · -- nothing is read from null
    simp [Record.getSub?] at hread
  · split at hform
    · rename_i hmany
      obtain ⟨items, rfl, hitems⟩ := hform
      obtain rfl := Option.some.inj hread
      obtain ⟨item, hitem, rfl⟩ := List.mem_map.mp hmem
      rcases hitems item hitem with rfl | ⟨fields, rfl, htakes⟩
      · exact .inl rfl
      · simp only [Value.complex?, Option.bind_some, hget]
        cases hvalue : Record.get? fields sub.name.text with
        | none => exact .inl rfl
        | some value => exact (htakes sub hsub value hvalue).single (hone hmany)
    · obtain ⟨fields, rfl, htakes⟩ := hform
      rw [Record.getSub?, hget] at hread
      exact Attribute.takes_of_mem_elements (a := SubAttribute.lift sub)
        (htakes sub hsub read hread) hmem

/-- A filter finds values of the declared kinds in sound data. -/
theorem Schema.takes_resource {c : Catalog} {s : Schema} {r : Record} (hs : s.Registered c)
    (hsingle : s.SingleSubs) (hsound : s.Sound r) : (Scope.resource s).Takes c r := by
  intro ref href target htarget value hvalue element hmem
  simp only [Scope.attribute?, attributeOf?, Option.mem_def, Option.bind_eq_some_iff] at htarget
  obtain ⟨q, hresolve, htarget⟩ := htarget
  obtain ⟨p, hp, hq⟩ := exists_part_of_resolve? hs href hresolve
  simp only [Scope.value?, hresolve, Option.mem_def, Option.bind_eq_bind, Option.bind_some] at hvalue
  rw [hq] at htarget hvalue
  obtain ⟨fields, hdata, hpath⟩ := getAt?_uri hp hvalue
  have hfound : p.attribute? q.path = some target := by
    simpa [attribute?, part?_uri hp] using htarget
  obtain ⟨a, hfind, htarget⟩ := Part.attribute?_eq_some hfound
  obtain ⟨ha, hkey⟩ := AttributeSet.find?_eq_some hfind
  simp only [Record.getPath?, Option.bind_eq_bind, Option.bind_eq_some_iff] at hpath
  obtain ⟨stored, hstored, hread⟩ := hpath
  -- the data are sound, so what is stored has the form of the attribute
  have hform : a.HasForm a.kind.Takes stored := by
    refine Attribute.takes_of_validate (hsound p hp a ha stored ?_)
    rw [Option.mem_def, Part.value?_of_data hdata, Record.get?_congr hkey]
    exact hstored
  rcases htarget with ⟨hnone, rfl⟩ | ⟨name, subs, sub, hname, hsubs, hfind, rfl⟩
  · rw [hnone] at hread
    obtain rfl := Option.some.inj hread
    exact Attribute.takes_of_mem_elements hform hmem
  · rw [hname] at hread
    obtain ⟨hsub, hsubkey⟩ := AttributeSet.find?_eq_some hfind
    have hone : a.multiValued = true → sub.multiValued = false := fun hmany =>
      hsingle p hp a ha hmany subs hsubs sub hsub
    exact Record.takes_getSub? hsubs hform hsub hsubkey hone hread hmem

/-! ## Applications -/

/-- The operand fits the attribute, and the element is null or of its kind. -/
structure Application.Typed (x : Application) : Prop where
  fits : x.operand.fits x.attr.type = true
  takes : x.element = .null ∨ x.attr.kind.Takes x.element

/-- An element and an operand that are there are compared as values of one type. -/
theorem Application.Typed.compares {x : Application} (h : x.Typed) (helement : x.element ≠ .null)
    (hoperand : x.operand ≠ .null) :
    x.attr.type.Compares x.left ∧ x.attr.type.Compares x.right := by
  have hright := Attribute.compares_operand h.fits hoperand
  refine ⟨?_, hright⟩
  have htakes := h.takes.resolve_left helement
  cases hkind : x.attr.kind with
  | simple k =>
    rw [hkind] at htakes
    exact Attribute.compares_value hkind htakes
  | complex subs =>
    -- nothing but null fits a complex attribute
    rw [Attribute.type, hkind] at hright
    exact hright.elim

/-- What is tried is null, or an element of what was read. -/
theorem Comparison.mem_candidates {value : Option Value} {element : Value}
    (h : element ∈ candidates value) :
    element = .null ∨ ∃ v, value = some v ∧ element ∈ Filter.elements v := by
  unfold candidates at h
  split at h
  · exact .inl (List.mem_singleton.mp h)
  · exact .inl (List.mem_singleton.mp h)
  · exact .inr ⟨_, rfl, h⟩
  · rename_i v _ hlist
    refine .inr ⟨v, rfl, ?_⟩
    cases v with
    | list items => exact absurd rfl (hlist items)
    | _ => exact h

/-- The target of a comparison is what its reference names, in the schema that the comparison
    names. -/
theorem Scope.target?_eq_some {scope : Scope} {f : AttributeFilter} {r : Reference} {a : Attribute}
    (h : scope.target? f = some (r, a)) :
    scope.attribute? r = some a ∧ r.schema? = f.attr.schema? := by
  simp only [target?, Option.bind_eq_bind, Option.bind_eq_some_iff] at h
  obtain ⟨b, hb, h⟩ := h
  split at h
  · obtain ⟨a', ha', h⟩ := Option.bind_eq_some_iff.mp h
    cases h
    refine ⟨ha', ?_⟩
    cases f.attr <;> rfl
  · cases h
    exact ⟨hb, rfl⟩

variable {c : Catalog} {scope : Scope} {data : Record}

/-- A comparison without an error is applied to elements of the kind and an operand that fits. -/
theorem AttributeFilter.typed_of_error? {f : AttributeFilter} (hf : f.attr.Registered c)
    (hcheck : f.error? scope = none) (hdata : scope.Takes c data) {x : Application}
    (hx : x ∈ f.applications scope data) : x.Typed := by
  obtain ⟨hcomparison, r, htarget, helement⟩ := mem_applications.mp hx
  obtain ⟨hattr, hschema⟩ := Scope.target?_eq_some htarget
  refine ⟨?_, ?_⟩
  · -- what does not fit is reported
    simp only [error?, htarget, Option.bind_some, hcomparison, Comparison.error?] at hcheck
    by_contra hfits
    split at hcheck <;> simp_all
  · rcases Comparison.mem_candidates helement with hnull | ⟨value, hvalue, hmem⟩
    · exact .inl hnull
    · refine hdata r ?_ x.attr hattr value hvalue x.element hmem
      rwa [Reference.Registered, hschema]

/-- A filter without errors is applied to what is of the kinds that were checked. -/
theorem Filter.typed_of_errorsIn {f : Filter} (hf : f.Registered c)
    (hcheck : f.errorsIn scope = []) (hdata : scope.Takes c data) {x : Application}
    (hx : x ∈ f.applications scope data) : x.Typed := by
  induction f generalizing scope data with
  -- the errors of both sides are none, and what is applied belongs to one of them
  | and left right ihleft ihright | or left right ihleft ihright =>
    obtain ⟨hleft, hright⟩ := List.forall_mem_append.mp hf
    obtain ⟨hchecked, hchecked'⟩ := List.append_eq_nil_iff.mp hcheck
    rcases List.mem_append.mp hx with hx | hx
    · exact ihleft hleft hchecked hdata hx
    · exact ihright hright hchecked' hdata hx
  | not inner ih | group inner ih => exact ih hf hcheck hdata hx
  | leaf f =>
    exact AttributeFilter.typed_of_error? (List.forall_mem_singleton.mp hf)
      (Option.toList_eq_nil_iff.mp hcheck) hdata hx
  | complex attr inner ih =>
    obtain ⟨hattr, hinner⟩ := List.forall_mem_cons.mp hf
    obtain ⟨a, ha, value, hvalue, element, hmem, fields, hrecord, hx⟩ :=
      mem_applications_complex.mp hx
    have hchecked : inner.errorsIn (.element a.elementSubs) = [] := by
      simpa only [errorsIn, ha] using hcheck
    have htakes := hdata attr hattr a ha value hvalue element hmem
    -- the scope becomes that of the element
    have hfields := Attribute.takes_elementRecord? htakes hrecord
    exact ih hinner hchecked (Scope.takes_element c hfields) hx

/-- Two values are of one kind, or one of them is null. -/
def Value.Comparable (left right : Value) : Prop :=
  left = .null ∨ right = .null ∨ left.ofOneKind right = true

/-- What is compared is of one kind, unless there is nothing on one side. -/
theorem Application.Typed.comparable {x : Application} (h : x.Typed) :
    x.left.Comparable x.right := by
  by_cases helement : x.element = .null
  · exact .inl (by rw [left, helement]; rfl)
  · by_cases hoperand : x.operand = .null
    · exact .inr (.inl (by rw [right, hoperand]; rfl))
    · have ⟨hleft, hright⟩ := h.compares helement hoperand
      exact .inr (.inr (hleft.ofOneKind hright))

/-! ## Sound checks -/

/-- A filter without errors is applied to what is of the kinds that were checked, if the data are
    sound. -/
theorem Filter.typed_of_check {f : Filter} {s : Schema} {r : Record} (hs : s.Registered c)
    (hf : f.Registered c) (hsingle : s.SingleSubs) (hcheck : (f.check s).hasErrors = false)
    (hsound : s.Sound r) : ∀ x ∈ f.applications (.resource s) r, x.Typed := fun _ hx =>
  typed_of_errorsIn hf (Issues.hasErrors_ofErrors_eq_false_iff.mp hcheck)
    (Schema.takes_resource hs hsingle hsound) hx

/-- Decimals apart, what is compared has an order, if there is something on both sides. -/
theorem Application.Typed.isSome_compare {x : Application} (h : x.Typed)
    (hdecimal : x.attr.type ≠ .decimal) (helement : x.element ≠ .null) (hoperand : x.operand ≠ .null) :
    ((x.attr.comparable x.element).compare (x.attr.comparable x.operand.toValue)).isSome = true :=
  have ⟨hleft, hright⟩ := h.compares helement hoperand
  hleft.isSome_compare hright hdecimal

/-- A filter that is applied to what was checked makes no use of what its operators say of values of
    different kinds. -/
theorem Filter.evaluate_withOperators {f : Filter} {s : Schema} {r : Record}
    (htyped : ∀ x ∈ f.applications (.resource s) r, x.Typed) {g : BinaryOperator → BinaryOperator}
    (hg : ∀ op left right, Value.Comparable left right →
      (g op).evaluate left right = op.evaluate left right) :
    (f.withOperators g).evaluate r s = f.evaluate r s :=
  holds_withOperators fun x hx => hg x.op x.left x.right (htyped x hx).comparable

/-- In a process every comparison of sound data has an order, for every schema that was built and
    every filter that was read from a text and passes its check; and no verdict comes from a
    difference of kinds. -/
theorem Filter.comparable_of_parse {s : Schema} (hs : s.Built c) (hsingle : s.SingleSubs)
    {operators : Operators} (hops : operators.Built) {text : String}
    (htext : Masked.border ∉ text.toList) {f : Filter} (hf : parse c operators text = .ok f)
    (hcheck : (f.check s).hasErrors = false) {r : Record} (hsound : s.Sound r) :
    (∀ x ∈ f.applications (.resource s) r, x.attr.type ≠ .decimal → x.element ≠ .null →
      x.operand ≠ .null →
      ((x.attr.comparable x.element).compare (x.attr.comparable x.operand.toValue)).isSome = true) ∧
    ∀ g : BinaryOperator → BinaryOperator,
      (∀ op left right, Value.Comparable left right →
        (g op).evaluate left right = op.evaluate left right) →
      (f.withOperators g).evaluate r s = f.evaluate r s :=
  have htyped := typed_of_check hs.registered (registered_of_parse hops htext hf) hsingle hcheck hsound
  ⟨fun x hx => (htyped x hx).isSome_compare, fun _ hg => evaluate_withOperators htyped hg⟩

/-- Of a filter that passes its check, every comparison of sound data has an order: an element that
    is there, of an attribute that is not a decimal, and an operand other than null are comparable.
    And no verdict comes from a difference of kinds: the filter would give the same one with
    operators that say anything else of values of different kinds. -/
theorem Filter.comparable_of_check (c : Catalog) {s : Schema} (hs : s.Registered c)
    (hsingle : s.SingleSubs) {f : Filter} (hf : f.Registered c)
    (hcheck : (f.check s).hasErrors = false) {r : Record} (hsound : s.Sound r) :
    (∀ x ∈ f.applications (.resource s) r, x.attr.type ≠ .decimal → x.element ≠ .null →
      x.operand ≠ .null →
      ((x.attr.comparable x.element).compare (x.attr.comparable x.operand.toValue)).isSome = true) ∧
    ∀ g : BinaryOperator → BinaryOperator,
      (∀ op left right, Value.Comparable left right →
        (g op).evaluate left right = op.evaluate left right) →
      (f.withOperators g).evaluate r s = f.evaluate r s :=
  have htyped := typed_of_check hs hf hsingle hcheck hsound
  ⟨fun x hx => (htyped x hx).isSome_compare, fun _ hg => evaluate_withOperators htyped hg⟩

/-- The members of staff with badge 7, by a path and in square brackets. -/
def badgeSevenFilter : Filter :=
  .and
    (.leaf ⟨.qualified ⟨Schema.staffExtension.uri, ⟨Schema.badges, some Schema.badgeNumber⟩⟩,
      .binary .equal (.string "7")⟩)
    (.complex (.plain ⟨Schema.badges, none⟩)
      (.leaf ⟨.plain ⟨Schema.badgeNumber, none⟩,
        .binary (.onOrder "ge" Ordering.isGE) (.string "7")⟩))

/-- The number of a badge is compared twice, both times with a text. -/
theorem Filter.comparable_of_check_badges :
    Schema.staffSchema.Registered ⟨Schema.staffSchema.uris⟩ ∧ Schema.staffSchema.SingleSubs ∧
      badgeSevenFilter.Registered ⟨Schema.staffSchema.uris⟩ ∧
      (badgeSevenFilter.check Schema.staffSchema).hasErrors = false ∧
      Schema.staffSchema.Sound Schema.staffData ∧
      (badgeSevenFilter.applications (.resource Schema.staffSchema) Schema.staffData).length = 2 ∧
      ∀ x ∈ badgeSevenFilter.applications (.resource Schema.staffSchema) Schema.staffData,
        x.attr.type ≠ .decimal → x.element ≠ .null → x.operand ≠ .null →
        ((x.attr.comparable x.element).compare
          (x.attr.comparable x.operand.toValue)).isSome = true := by
  have hs : Schema.staffSchema.Registered ⟨Schema.staffSchema.uris⟩ := by decide +kernel
  have hsingle : Schema.staffSchema.SingleSubs := by
    unfold Schema.SingleSubs
    decide +kernel
  have hf : badgeSevenFilter.Registered ⟨Schema.staffSchema.uris⟩ := by decide +kernel
  have hcheck : (badgeSevenFilter.check Schema.staffSchema).hasErrors = false := by decide +kernel
  have hsound : Schema.staffSchema.Sound Schema.staffData := by
    unfold Schema.Sound
    decide +kernel
  exact ⟨hs, hsingle, hf, hcheck, hsound, by decide +kernel,
    (comparable_of_check ⟨Schema.staffSchema.uris⟩ hs hsingle hf hcheck hsound).1⟩

end Scim
