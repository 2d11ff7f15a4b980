import Scim.Patch.Operation
import Scim.Proofs.Schema.Validation

/-!
  # What an accepted operation writes

  No operation that is accepted writes what is read-only (`Operation.Permitted`): neither the target
  of a path nor the attribute that it lies in, nor any attribute or sub-attribute inside of the value.
  Without a path it is just this, and what any request is checked for, that decides: a value is
  accepted if it is `Schema.Writable`.

    * A value is `FreeOf` what is barred if there is no value of a barred attribute, and none of a barred
      sub-attribute in any element.
    * A request admits a value unless it is to come from the service provider
      (`Presence.passes_request_iff`).
    * Read-only values are looked for in the containers of a value, without regard to its
      declaration.  In a value that is right these are its elements
      (`Attribute.spares_iff`), so that the check finds them all.
-/

namespace Scim

open Issues

/-! ## Values without what is barred -/

/-- Nobody may write the attribute. -/
def Characteristics.ReadOnly (c : Characteristics) : Prop := c.mutability = .readOnly

/-- The attribute is issued by the service provider. -/
def Characteristics.ProviderIssued (c : Characteristics) : Prop := c.issuer = .serviceProvider

instance : DecidablePred Characteristics.ReadOnly :=
  fun c => inferInstanceAs (Decidable (c.mutability = .readOnly))

instance : DecidablePred Characteristics.ProviderIssued :=
  fun c => inferInstanceAs (Decidable (c.issuer = .serviceProvider))

/-- There is no value of the attribute if it is barred, and no value of a sub-attribute that is barred
    in any element. -/
structure Attribute.FreeOf (a : Attribute) (barred : Characteristics → Prop) (value : Value) :
    Prop where
  own : barred a.toCharacteristics → value.isPresent = false
  subs : ∀ subs ∈ Attribute.subs? a, ∀ sub ∈ subs.toList, ∀ fields ∈ value.records,
    barred sub.toCharacteristics → (Record.getD fields sub.name.text).isPresent = false

instance (a : Attribute) (barred : Characteristics → Prop) [DecidablePred barred] (value : Value) :
    Decidable (Attribute.FreeOf a barred value) :=
  decidable_of_iff ((barred a.toCharacteristics → value.isPresent = false) ∧
    ∀ subs ∈ Attribute.subs? a, ∀ sub ∈ subs.toList, ∀ fields ∈ value.records,
      barred sub.toCharacteristics → (Record.getD fields sub.name.text).isPresent = false)
    ⟨fun h => ⟨h.1, h.2⟩, fun h => ⟨h.own, h.subs⟩⟩

/-- A value is free of two sorts just if it is free of either. -/
theorem Attribute.freeOf_or_iff {a : Attribute} {barred barred' : Characteristics → Prop}
    {value : Value} :
    Attribute.FreeOf a (fun c => barred c ∨ barred' c) value ↔
      Attribute.FreeOf a barred value ∧ Attribute.FreeOf a barred' value := by
  constructor
  · rintro ⟨hown, hsubs⟩
    exact ⟨⟨fun h => hown (.inl h), fun subs hmem sub hsub fields hfields h =>
        hsubs subs hmem sub hsub fields hfields (.inl h)⟩,
      ⟨fun h => hown (.inr h), fun subs hmem sub hsub fields hfields h =>
        hsubs subs hmem sub hsub fields hfields (.inr h)⟩⟩
  · rintro ⟨h, h'⟩
    exact ⟨fun hbarred => hbarred.elim h.own h'.own, fun subs hmem sub hsub fields hfields hbarred =>
      hbarred.elim (h.subs subs hmem sub hsub fields hfields)
        (h'.subs subs hmem sub hsub fields hfields)⟩

/-! ## Values in a request -/

namespace Presence

variable {q : Qualified} {c : Characteristics} {a : Attribute} {value : Value}

/-- A request that asks for nothing by name admits everything but what the service provider
    issues. -/
theorem admits_request_iff :
    request.Admits q c value ↔ (c.ProviderIssued → value.isPresent = false) := by
  have hinclusivity : request.inclusivity q = none := rfl
  have hignores : request.ignoresIssuer q = false := by
    simp [ignoresIssuer, request, Selection.listed]
  unfold Admits Characteristics.validatePresence Characteristics.isServiceIssued
    Characteristics.ProviderIssued
  rw [hinclusivity, hignores]
  -- only what is there can be issued by somebody
  by_cases hpresent : value.isPresent = true
  · by_cases hissuer : c.issuer = .serviceProvider
    · simp [request, hpresent, hissuer]
    · simp [request, hpresent, hissuer]
  · simp [request, hpresent]

/-- A value passes in a request just if it is right, and free of what the provider issues. -/
theorem passes_request_iff :
    request.Passes q a value ↔
      (Attribute.validate a value).hasErrors = false ∧
        Attribute.FreeOf a Characteristics.ProviderIssued value := by
  constructor
  · rintro ⟨hvalid, hadmitted, hsubs⟩
    exact ⟨hvalid, admits_request_iff.mp hadmitted, fun subs hmem sub hsub fields hfields =>
      admits_request_iff.mp (hsubs subs hmem sub hsub fields hfields)⟩
  · rintro ⟨hvalid, hown, hsubs⟩
    exact ⟨hvalid, admits_request_iff.mpr hown, fun subs hmem sub hsub fields hfields =>
      admits_request_iff.mpr (hsubs subs hmem sub hsub fields hfields)⟩

end Presence

/-! ## Read-only attributes -/

/-- The check of a sub-attribute reports whether it has a value though it is read-only. -/
theorem SubAttribute.reports_checkReadOnly (sub : SubAttribute) (value : Value) (loc : Location) :
    Reports (SubAttribute.checkReadOnly sub value loc)
      (sub.ReadOnly → value.isPresent = false) := by
  unfold checkReadOnly
  refine (Reports.ite (fun _ => Reports.addError readOnlyError false loc)
    fun _ => Reports.skip).congr ?_
  simp only [Characteristics.ReadOnly, Bool.and_eq_true, beq_iff_eq, imp_false, not_and,
    implies_true, and_true]
  constructor
  · exact fun h hreadOnly => Bool.eq_false_iff.mpr fun hpresent => h hpresent hreadOnly
  · intro h hpresent hreadOnly
    simp [h hreadOnly] at hpresent

/-- That of a container reports this of all sub-attributes in it. -/
theorem SubAttribute.reports_checkContainer (subs : List SubAttribute)
    (container : Location × Record) :
    Reports (SubAttribute.checkContainer subs · container)
      (∀ sub ∈ subs, sub.ReadOnly → (Record.getD container.2 sub.name.text).isPresent = false) := by
  refine Reports.foldl fun sub _ => ?_
  unfold Record.getD
  cases Record.get? container.2 sub.name.text with
  | none => exact Reports.skip.congr (iff_of_true trivial fun _ => rfl)
  | some value => exact SubAttribute.reports_checkReadOnly sub value _

/-- A value that is not there has no record with anything in it. -/
theorem Value.eq_nil_of_mem_records {value : Value} (h : value.isPresent = false) {fields : Record}
    (hfields : fields ∈ value.records) : fields = [] := by
  cases value with
  | complex others =>
    obtain rfl : fields = others := by simpa [records] using hfields
    simpa [isPresent] using h
  | list items =>
    obtain rfl : items = [] := by simpa [isPresent] using h
    simp [records, recordsOf] at hfields
  | _ => simp [records] at hfields

namespace Attribute

variable {a : Attribute} {value : Value}

/-- If there is a value, then it is not one of a read-only attribute, and no container in it has a
    value of a read-only sub-attribute. -/
def Spares (a : Attribute) (value : Value) (loc : Location) : Prop :=
  value.isPresent = true → ¬a.ReadOnly ∧
    ∀ subs ∈ Attribute.subs? a, ∀ container ∈ value.containers loc, ∀ sub ∈ subs.toList,
      sub.ReadOnly → (Record.getD container.2 sub.name.text).isPresent = false

/-- The check of an attribute reports whether read-only values are spared. -/
theorem reports_checkReadOnly (a : Attribute) (value : Value) (loc : Location) :
    Reports (Attribute.checkReadOnly a value loc) (Spares a value loc) := by
  -- both kinds of attributes are checked for a value first, then whether they are read-only
  -- themselves
  have hpresent : ∀ {check : Issues → Issues} {fine : Prop}, Reports check fine →
      Reports (fun issues => if !value.isPresent then issues
        else if a.mutability == .readOnly then issues.addError readOnlyError false loc
        else check issues) (value.isPresent = true → ¬a.ReadOnly ∧ fine) := by
    intro check fine h
    refine (Reports.ite (fun _ => Reports.skip) fun _ =>
      Reports.ite (fun _ => Reports.addError readOnlyError false loc) fun _ => h).congr ?_
    simp only [Bool.not_eq_true', Bool.not_eq_false, beq_iff_eq, imp_false, implies_true, true_and]
    exact forall_congr' fun _ => ⟨fun h => ⟨h.1, h.2 h.1⟩, fun h => ⟨h.1, fun _ => h.2⟩⟩
  unfold checkReadOnly Spares
  cases Attribute.subs? a with
  | none => exact (hpresent Reports.skip).congr (by simp)
  | some subs =>
    have hcontainers := Reports.foldl fun container (_ : container ∈ value.containers loc) =>
      SubAttribute.reports_checkContainer subs.toList container
    exact (hpresent hcontainers).congr (by simp)

/-- The containers of a value that consists of records are its elements. -/
theorem containers_eq (hform : a.HasForm (fun element => ∃ fields, element = .complex fields) value)
    (loc : Location) :
    value.containers loc = (Schema.elementsOf a value loc).filterMap fun element =>
      element.2.complex?.map fun fields => (element.1, fields) := by
  rcases hform with rfl | hform
  · rfl
  · split at hform
    · -- the items of a list, or the one value
      rename_i hmany
      obtain ⟨items, rfl, -⟩ := hform
      simp only [Value.containers, Schema.elementsOf, hmany, if_true, List.filterMap_map]
      rfl
    · obtain ⟨fields, rfl⟩ := hform
      rfl

/-- In a value that is right nothing is overlooked. -/
theorem spares_iff (hvalid : (Attribute.validate a value).hasErrors = false) (loc : Location) :
    Spares a value loc ↔ FreeOf a Characteristics.ReadOnly value := by
  -- sub-attributes are looked for in containers, and declared for the records of elements: the same
  -- ones
  have hsubs : (∀ subs ∈ Attribute.subs? a, ∀ container ∈ value.containers loc,
      ∀ sub ∈ subs.toList, sub.ReadOnly →
        (Record.getD container.2 sub.name.text).isPresent = false) ↔
      ∀ subs ∈ Attribute.subs? a, ∀ sub ∈ subs.toList, ∀ fields ∈ value.records,
        sub.ReadOnly → (Record.getD fields sub.name.text).isPresent = false := by
    rw [← Schema.forall_elements_iff loc hvalid fun sub value =>
      sub.ReadOnly → value.isPresent = false]
    refine forall_congr' fun subs => forall_congr' fun hmem => ?_
    rw [containers_eq (Attribute.hasForm_of_validate hmem hvalid)]
    constructor
    · intro h element helement fields hrecord
      exact h (element.1, fields) (List.mem_filterMap.mpr ⟨element, helement, by simp [hrecord,
        Value.complex?]⟩)
    · rintro h container hcontainer
      obtain ⟨element, helement, hmade⟩ := List.mem_filterMap.mp hcontainer
      obtain ⟨fields, hrecord, rfl⟩ := Option.map_eq_some_iff.mp hmade
      exact h element helement fields (Value.eq_complex_of_complex? hrecord)
  constructor
  · intro h
    by_cases hpresent : value.isPresent = true
    · obtain ⟨hown, hcontainers⟩ := h hpresent
      exact ⟨fun hreadOnly => absurd hreadOnly hown, hsubs.mp hcontainers⟩
    · -- nothing is there, and so nothing is in it either
      rw [Bool.not_eq_true] at hpresent
      refine ⟨fun _ => hpresent, fun _ _ sub _ fields hfields _ => ?_⟩
      rw [Value.eq_nil_of_mem_records hpresent hfields]
      rfl
  · intro h hpresent
    exact ⟨fun hreadOnly => by simp [h.own hreadOnly] at hpresent, hsubs.mpr h.subs⟩

end Attribute

/-! ## Resources -/

/-- What the value of an operation without a path must be: data of extensions in records, values
    that are right, and none that is read-only or to come from the service provider. -/
structure Schema.Writable (s : Schema) (r : Record) : Prop where
  entries : ∀ p ∈ s.extensionParts, Record.getD r p.uri.text = .null ∨
    ∃ fields, Record.getD r p.uri.text = .complex fields
  valid : ∀ p ∈ s.parts, ∀ a ∈ p.attributes.toList,
    (Attribute.validate a ((p.value? r a).getD .null)).hasErrors = false
  free : ∀ p ∈ s.parts, ∀ a ∈ p.attributes.toList,
    Attribute.FreeOf a (fun c => c.ReadOnly ∨ c.ProviderIssued) ((p.value? r a).getD .null)

/-- That of a part reports it of all attributes that have a value there. -/
theorem Schema.Part.reports_checkReadOnly (p : Schema.Part) (r : Record) (below : Location) :
    Reports (Schema.Part.checkReadOnly r below · p)
      (∀ fields, p.data r = .ok fields → ∀ a ∈ p.attributes.toList,
        Attribute.Spares a (Record.getD fields a.name.text) (below ++ p.locationOf a)) := by
  unfold checkReadOnly
  cases p.data r with
  | error => exact Reports.skip.congr (by simp)
  | ok fields =>
    have hspares : (∀ a ∈ p.attributes.toList,
        Attribute.Spares a (Record.getD fields a.name.text) (below ++ p.locationOf a)) ↔
        ∀ others, Except.ok fields = Except.ok (ε := Value) others → ∀ a ∈ p.attributes.toList,
          Attribute.Spares a (Record.getD others a.name.text) (below ++ p.locationOf a) := by
      simp
    refine (Reports.foldl fun a _ => ?_).congr hspares
    unfold Record.getD
    cases Record.get? fields a.name.text with
    | none => exact Reports.skip.congr (iff_of_true trivial fun h => by simp [Value.isPresent] at h)
    | some value => exact Attribute.reports_checkReadOnly a value _

namespace Operation

variable {s : Schema} {o : Operation}

/-- A value is given if it is there and not null. -/
theorem givenValue?_eq_some {value : Value} :
    o.givenValue? = some value ↔ o.value = some value ∧ value ≠ .null := by
  unfold givenValue?
  split
  · simp_all
  · simp_all
  · rename_i other hother hvalue
    rw [hvalue, Option.some.injEq]
    exact ⟨fun h => ⟨h, h ▸ hother⟩, And.left⟩

/-- Without regard to how a resource is checked: values are right, and free of what is barred. -/
theorem writable_iff {r : Record} :
    s.Writable r ↔ ∀ p ∈ s.parts, ∃ fields, p.data r = .ok fields ∧ ∀ a ∈ p.attributes.toList,
      (Attribute.validate a (Record.getD fields a.name.text)).hasErrors = false ∧
        Attribute.FreeOf a (fun c => c.ReadOnly ∨ c.ProviderIssued)
          (Record.getD fields a.name.text) := by
  rw [Schema.forall_data_iff s r fun a value => (Attribute.validate a value).hasErrors = false ∧
    Attribute.FreeOf a (fun c => c.ReadOnly ∨ c.ProviderIssued) value]
  constructor
  · rintro ⟨hentries, hvalid, hfree⟩
    exact ⟨hentries, fun p hp a ha => ⟨hvalid p hp a ha, hfree p hp a ha⟩⟩
  · rintro ⟨hentries, hall⟩
    exact ⟨hentries, fun p hp a ha => (hall p hp a ha).1, fun p hp a ha => (hall p hp a ha).2⟩

/-- The two checks of a record find no error just if it can be written. -/
theorem checks_iff (hs : s.Earnest) (r : Record) :
    (s.parts.foldl (Schema.Part.checkReadOnly r atValue)
        (Issues.empty.merge (s.validatePartial r) atValue)).hasErrors = false ↔ s.Writable r := by
  have ⟨hearnest, hpasses⟩ := Schema.validateAttributes_iff hs r .request false
  -- one after the other the checks are one check, which reports what both do
  have hchecks := (Reports.merge hearnest atValue).comp
    (Reports.foldl fun p (_ : p ∈ s.parts) => p.reports_checkReadOnly r atValue)
  refine hchecks.on_empty.trans ?_
  rw [hpasses, writable_iff, ← forall₂_and]
  refine forall_congr' fun p => forall_congr' fun _ => ?_
  constructor
  · rintro ⟨⟨fields, hdata, -, hall⟩, hspares⟩
    refine ⟨fields, hdata, fun a ha => ?_⟩
    have ⟨hvalid, hissued⟩ := Presence.passes_request_iff.mp (hall a ha)
    have hreadOnly := (Attribute.spares_iff hvalid _).mp (hspares fields hdata a ha)
    exact ⟨hvalid, Attribute.freeOf_or_iff.mpr ⟨hreadOnly, hissued⟩⟩
  · rintro ⟨fields, hdata, hall⟩
    refine ⟨⟨fields, hdata, by simp, fun a ha => ?_⟩, fun fields' hdata' a ha => ?_⟩
    · have ⟨hvalid, hfree⟩ := hall a ha
      exact Presence.passes_request_iff.mpr ⟨hvalid, (Attribute.freeOf_or_iff.mp hfree).2⟩
    · obtain rfl : fields = fields' := by simpa [hdata] using hdata'
      have ⟨hvalid, hfree⟩ := hall a ha
      exact (Attribute.spares_iff hvalid _).mpr (Attribute.freeOf_or_iff.mp hfree).1

/-- Without a path the value must be a record that can be written. -/
theorem validateResource_iff (hs : s.Earnest) :
    (o.validateResource s).hasErrors = false ↔ ∃ r, o.value = some (.complex r) ∧ s.Writable r := by
  have hgiven : ∀ r, o.givenValue? = some (.complex r) ↔ o.value = some (.complex r) := by
    intro r
    simp [givenValue?_eq_some]
  simp only [← hgiven]
  -- nothing is given, or a record, or something else
  unfold validateResource
  split
  · rename_i hnone
    simp [hnone]
  · rename_i r hr
    rw [checks_iff hs]
    simp [hr]
  · rename_i other hother hsome
    rw [hsome]
    refine iff_of_false (by simp) ?_
    rintro ⟨r, hr, -⟩
    exact hother r (Option.some.inj hr)

/-! ## Targets -/

/-- A value for the elements that a filter selects is the value of one element. -/
def valueFor (path : PatchPath) (value : Value) : Value :=
  if path.selection.isSome && path.sub.isNone then .list [value] else value

/-- A value that is wrapped has the same records in it. -/
theorem records_valueFor (path : PatchPath) (value : Value) :
    (valueFor path value).records = value.records := by
  unfold valueFor
  split <;> simp [Value.records, Value.recordsOf]

/-- A target is given a value that is right, with nothing in it that is read-only. -/
theorem validateValue_iff {path : PatchPath} {target : Attribute} (htarget : Attribute.Earnest target) :
    (o.validateValue path target).hasErrors = false ↔ ∃ value, o.givenValue? = some value ∧
      (Attribute.validate target (valueFor path value)).hasErrors = false ∧
      Attribute.FreeOf target Characteristics.ReadOnly (valueFor path value) := by
  unfold validateValue
  split
  · rename_i hnone
    simp [hnone]
  · rename_i value hvalue
    have hearnest := Attribute.earnest_validate htarget (valueFor path value)
    have hchecks := ((Reports.merge hearnest atValue).comp
      (Attribute.reports_checkReadOnly target (valueFor path value) atValue)).on_empty
    refine hchecks.trans ?_
    rw [hvalue]
    constructor
    · rintro ⟨hvalid, hspares⟩
      exact ⟨value, rfl, hvalid, (Attribute.spares_iff hvalid atValue).mp hspares⟩
    · rintro ⟨value', hvalue', hvalid, hfree⟩
      obtain rfl : value = value' := Option.some.inj hvalue'
      exact ⟨hvalid, (Attribute.spares_iff hvalid atValue).mpr hfree⟩

/-- What is right about an operation on a target. -/
structure Fits (o : Operation) (path : PatchPath) (target : Attribute) : Prop where
  /-- What is required is not removed as a whole. -/
  removed : o.op = .remove → ¬(target.required = true ∧ target.multiValued = false)
  given : o.op ≠ .remove → ∃ value, o.givenValue? = some value ∧
    (Attribute.validate target (valueFor path value)).hasErrors = false ∧
    Attribute.FreeOf target Characteristics.ReadOnly (valueFor path value)

/-- Whether an operation is right about its target is what is checked. -/
theorem fits_iff {path : PatchPath} {target : Attribute} (htarget : Attribute.Earnest target) :
    (match o.op with
      | .remove =>
        if target.required && !target.multiValued then Issues.fatal .cannotRemoveRequired atPath
        else .empty
      | .add | .replace => o.validateValue path target).hasErrors = false ↔ o.Fits path target := by
  cases hop : o.op with
  | remove =>
    have hrequired : (target.required && !target.multiValued) = true ↔
        target.required = true ∧ target.multiValued = false := by simp
    simp only [hrequired]
    split
    · rename_i hkept
      exact iff_of_false (by simp) fun h => h.removed hop hkept
    · rename_i hkept
      exact iff_of_true rfl ⟨fun _ => hkept, fun h => absurd hop h⟩
  | add | replace =>
    refine (validateValue_iff htarget).trans ⟨fun h => ⟨fun hremove => ?_, fun _ => h⟩, fun h => h.given ?_⟩
    · simp [hop] at hremove
    · simp [hop]

/-- An operation with a path has a target that is not read-only, nor lies in an attribute that is. -/
theorem validateTarget_iff (hs : s.Earnest) {path : PatchPath} :
    (o.validateTarget s path).hasErrors = false ↔ ∃ q target parent,
      s.resolve? path.target = some q ∧ s.attribute? q = some target ∧
      s.attribute? q.parent = some parent ∧ ¬target.ReadOnly ∧ ¬parent.ReadOnly ∧
      o.Fits path target := by
  unfold validateTarget
  -- the path leads to nothing, or to a target and the attribute that this lies in
  cases hresolve : s.resolve? path.target with
  | none => simp
  | some q =>
    cases htarget : s.attribute? q with
    | none => simp [htarget]
    | some target =>
      obtain ⟨p, -, parent, -, hparent, hlies⟩ := Schema.attribute?_eq_some htarget
      have hreadOnly : isReadOnly s q target = true ↔ target.ReadOnly ∨ parent.ReadOnly := by
        simp only [isReadOnly, hparent, Bool.or_eq_true, beq_iff_eq, Bool.and_eq_true,
          Option.any_some, Characteristics.ReadOnly]
        -- an attribute at the top is its own parent
        rcases hlies with ⟨hsub, rfl⟩ | ⟨hsub, -⟩ <;> simp [hsub]
      simp only [htarget, hparent, Option.bind_some, Option.map_some, Option.some.injEq,
        exists_and_left, exists_eq_left']
      split
      · rename_i hbarred
        refine iff_of_false (by simp) ?_
        rintro ⟨hown, hparent, -⟩
        exact (hreadOnly.mp hbarred).elim hown hparent
      · rename_i hopen
        have ⟨hown, hparent⟩ := not_or.mp (mt hreadOnly.mpr hopen)
        exact (fits_iff (hs.attribute? htarget)).trans
          ⟨fun h => ⟨hown, hparent, h⟩, fun h => h.2.2⟩

/-! ## Operations -/

/-- An operation writes nothing that is read-only. -/
structure Permitted (o : Operation) (s : Schema) : Prop where
  /-- A path leads to a target that may be written, and so may the attribute that it lies in.  What is
      required is not removed as a whole, and what is given has nothing in it that is read-only. -/
  target : ∀ path ∈ o.path, ∃ q target parent,
    s.resolve? path.target = some q ∧ s.attribute? q = some target ∧
    s.attribute? q.parent = some parent ∧ ¬target.ReadOnly ∧ ¬parent.ReadOnly ∧
    (o.op = .remove → ¬(target.required = true ∧ target.multiValued = false)) ∧
    (o.op ≠ .remove → ∃ value, o.value = some value ∧
      Attribute.FreeOf target Characteristics.ReadOnly value)
  /-- Without a path a record is given, and no attribute of any part has a value there that is
      read-only. -/
  resource : o.path = none → o.op ≠ .remove ∧ ∃ r, o.value = some (.complex r) ∧
    ∀ p ∈ s.parts, ∀ a ∈ p.attributes.toList,
      Attribute.FreeOf a Characteristics.ReadOnly ((p.value? r a).getD .null)

/-- Wrapping a value makes no difference to what is in it. -/
theorem freeOf_of_valueFor {path : PatchPath} {target : Attribute} {value : Value}
    (htarget : ¬target.ReadOnly)
    (h : Attribute.FreeOf target Characteristics.ReadOnly (valueFor path value)) :
    Attribute.FreeOf target Characteristics.ReadOnly value where
  own hreadOnly := absurd hreadOnly htarget
  subs subs hsubs sub hsub fields hfields :=
    h.subs subs hsubs sub hsub fields (by rwa [records_valueFor])

/-- An operation that is accepted writes nothing that is read-only. -/
theorem permitted_of_validate (hs : s.Earnest) (h : (o.validate s).hasErrors = false) :
    o.Permitted s := by
  -- nothing can be removed without a path; otherwise the operation is one of the two kinds
  unfold validate at h
  split at h
  · simp at h
  · rename_i hpath hop
    refine ⟨by simp [hpath], fun _ => ⟨hop, ?_⟩⟩
    obtain ⟨r, hr, hwritable⟩ := (validateResource_iff hs).mp h
    exact ⟨r, hr, fun p hp a ha => (Attribute.freeOf_or_iff.mp (hwritable.free p hp a ha)).1⟩
  · rename_i path hpath
    refine ⟨fun path' hpath' => ?_, by simp [hpath]⟩
    obtain rfl : path = path' := by simpa [hpath] using hpath'
    obtain ⟨q, target, parent, hresolve, htarget, hparent, hown, habove, hfits⟩ :=
      (validateTarget_iff hs).mp h
    refine ⟨q, target, parent, hresolve, htarget, hparent, hown, habove, hfits.removed, ?_⟩
    intro hop
    obtain ⟨value, hvalue, -, hfree⟩ := hfits.given hop
    exact ⟨value, (givenValue?_eq_some.mp hvalue).1, freeOf_of_valueFor hown hfree⟩

/-- Without a path those operations are accepted whose value can be written. -/
theorem validate_pathless_iff (hs : s.Earnest) (hpath : o.path = none) (hop : o.op ≠ .remove) :
    (o.validate s).hasErrors = false ↔ ∃ r, o.value = some (.complex r) ∧ s.Writable r := by
  rw [← validateResource_iff hs]
  unfold validate
  split
  · rename_i hremove
    exact absurd hremove hop
  · exact Iff.rfl
  · rename_i path hsome
    simp [hpath] at hsome

/-- Whatever the further validators of a schema look at: if they collect their issues step by step, no
    operation that is accepted writes what is read-only, and without a path just those operations are
    accepted whose value can be written. -/
theorem permitted_of_stepwise (hs : s.Stepwise) (o : Operation) :
    ((o.validate s).hasErrors = false → o.Permitted s) ∧
      (o.path = none → o.op ≠ .remove →
        ((o.validate s).hasErrors = false ↔
          ∃ r, o.value = some (.complex r) ∧ s.Writable r)) :=
  ⟨permitted_of_validate hs.earnest, validate_pathless_iff hs.earnest⟩

/-- No operation that is accepted writes what is read-only, and without a path just those operations
    are accepted whose value can be written. -/
theorem accepted_permitted (hs : s.Earnest) (o : Operation) :
    ((o.validate s).hasErrors = false → o.Permitted s) ∧
      (o.path = none → o.op ≠ .remove →
        ((o.validate s).hasErrors = false ↔
          ∃ r, o.value = some (.complex r) ∧ s.Writable r)) :=
  ⟨permitted_of_validate hs, validate_pathless_iff hs⟩

end Operation

/-! ## A store -/

/-- Shelves with labels; nobody writes how much is on them. -/
def shelves : Attribute where
  name := ⟨"shelves", by decide +kernel⟩
  multiValued := true
  kind := .complex
    { toList :=
        [ { name := ⟨"label", by decide +kernel⟩, kind := .string },
          { name := ⟨"count", by decide +kernel⟩, kind := .integer, mutability := .readOnly } ]
      distinct := by decide +kernel }

/-- A code that the service provider issues. -/
def doorCode : Attribute where
  name := ⟨"code", by decide +kernel⟩
  kind := .simple .string
  issuer := .serviceProvider

/-- A store has shelves, and a code for its door. -/
def storeSchema : Schema where
  uri := ⟨"urn:Store", false, by decide +kernel⟩
  name := "Store"
  endpoint := "/Stores"
  description := "Stores"
  attributes := ⟨CommonAttribute.all ++ [shelves, doorCode], by decide +kernel⟩
  extensions := []
  isBase := rfl
  distinct := by decide +kernel
  common := List.prefix_append _ _

/-- New shelves without a count. -/
def newShelves : Operation :=
  ⟨.replace, none, some (.complex [("Shelves", .list [.complex [("label", .string "tea")]])])⟩

/-- The new shelves are accepted, so they can be written. -/
theorem Operation.accepted_permitted_newShelves :
    storeSchema.Earnest ∧ newShelves.Permitted storeSchema ∧
      ∃ r, newShelves.value = some (.complex r) ∧ storeSchema.Writable r := by
  have hplain : storeSchema.Plain := by decide +kernel
  have haccepted : (newShelves.validate storeSchema).hasErrors = false := by decide +kernel
  have ⟨hpermitted, hwritable⟩ := Operation.accepted_permitted hplain.earnest newShelves
  exact ⟨hplain.earnest, hpermitted haccepted, (hwritable rfl (by decide)).mp haccepted⟩

/-- A count may not be among what is added. -/
example : (Operation.validate ⟨.add, none, some (.complex
    [("shelves", .list [.complex [("label", .string "tea")], .complex [("Count", .integer 7)]])])⟩
    storeSchema).hasErrors = true := by
  decide +kernel

end Scim
