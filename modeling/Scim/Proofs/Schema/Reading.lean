import Scim.Proofs.Attribute.Reading
import Scim.Proofs.Schema.Conversion

/-!
  # Resources are checked before or after they are read

  A host may check a resource as it came in, or as the schema reads it.  Reading changes values, gives
  keys their declared names, and drops what is not declared, and the check must not notice.

    * What is declared is found under the same keys, and each value was read by its attribute
      (`Part.data_deserialize`), so its three checks find the same codes (`sameEffect_validateAttribute`,
      from `Attribute.readsAs`).
    * Whether an extension has data is not changed either, as nothing of it is dropped; and the list of
      schemas is read as it is.

  Every step of the check looks at what halted before, and at nothing else that was found.  So the two
  checks can be followed side by side, and the codes they find are the same (`validate_deserialize`).
-/

namespace Scim

namespace Schema

variable {s : Schema} {p : Part} {a : Attribute} {r : Record}

/-! ## What is asked of schema and data -/

/-- No attribute is read or checked otherwise than it is declared. -/
def Readable (s : Schema) : Prop := ∀ p ∈ s.parts, ∀ a ∈ p.attributes.toList, Attribute.Readable a

instance (s : Schema) : Decidable s.Readable := by
  unfold Readable
  infer_instance

/-- An extension has a record of data, or none, and the records of extensions and of complex attributes
    hold declared keys only. -/
structure Covers (s : Schema) (r : Record) : Prop where
  extensions : ∀ p ∈ s.extensionParts, ∀ value ∈ Record.get? r p.uri.text,
    value = .null ∨ ∃ fields, value = .complex fields ∧ Record.DeclaredBy fields p.attributes
  subs : ∀ p ∈ s.parts, ∀ a ∈ p.attributes.toList, ∀ subs ∈ Attribute.subs? a,
    ∀ value ∈ p.value? r a, ∀ fields ∈ value.records, Record.DeclaredBy fields subs

/-- Whether a schema covers a resource can be found out by looking at both. -/
theorem covers_of_check
    (hextensions : ∀ p ∈ s.extensionParts, ∀ value ∈ Record.get? r p.uri.text,
      value.isNull = true ∨ ∃ fields ∈ value.complex?, Record.DeclaredBy fields p.attributes)
    (hsubs : ∀ p ∈ s.parts, ∀ a ∈ p.attributes.toList, ∀ subs ∈ Attribute.subs? a,
      ∀ value ∈ p.value? r a, ∀ fields ∈ value.records, Record.DeclaredBy fields subs) :
    s.Covers r where
  extensions p hp value hvalue := by
    rcases hextensions p hp value hvalue with hnull | ⟨fields, hfields, hkeys⟩
    · exact .inl (Value.isNull_iff.mp hnull)
    · exact .inr ⟨fields, Value.eq_complex_of_complex? hfields, hkeys⟩
  subs := hsubs

/-! ## Attributes -/

/-- What is no list is its only element. -/
theorem elementsOf_of_not_list {value : Value} (h : value.list? = none) (loc : Location) :
    elementsOf a value loc = [(loc, value)] := by
  cases value with
  | list items => cases h
  | _ => rfl

/-- The elements of a complex value that was read are its elements, each of them read. -/
theorem elementsOf_convertWith {subs : AttributeSet SimpleKind} (value : Value) (loc : Location) :
    elementsOf a (a.convertWith (Kind.complex subs).deserialize none value) loc =
      (elementsOf a value loc).map fun element =>
        (element.1, (Kind.complex subs).deserialize element.2) := by
  cases value with
  | list items =>
    rw [AttributeOf.convertWith_list]
    -- a list is read item by item only where there may be many
    cases hmany : a.multiValued with
    | true => simp [elementsOf, hmany, List.zipIdx_map, Function.comp_def]
    | false => simp [elementsOf, hmany, Kind.deserialize]
  | _ =>
    rw [AttributeOf.convertWith_of_single a rfl, elementsOf_of_not_list rfl, elementsOf_of_not_list rfl]
    rfl

/-- The check of an element finds the same codes after it was read. -/
theorem sameEffect_validateElement (config : Presence) (q : Qualified)
    {subs : AttributeSet SimpleKind} (h : ∀ sub ∈ subs.toList, SubAttribute.Readable sub)
    (loc : Location) (element : Value) :
    Issues.SameEffect (validateElement config q subs.toList · (loc, element))
      (validateElement config q subs.toList · (loc, (Kind.complex subs).deserialize element)) := by
  cases element with
  | complex fields =>
    refine .unlessHalted (.foldl fun sub hsub => ?_) loc
    -- the sub-attribute is there before and after, or it is not
    have hread := Record.getD_of_map (SubAttribute.deserialize_null (h sub hsub))
      (AttributeOf.get?_convertRecord hsub fields)
    have hpresent : (Record.getD (AttributeOf.convertRecord subs.toList SubAttribute.deserialize
        fields) sub.name.text).isPresent = (Record.getD fields sub.name.text).isPresent := by
      rw [hread]
      exact (SubAttribute.readsAs (h sub hsub) _).present
    exact .merge (.of_eq (sub.validatePresence_congr _ _ _ hpresent.symm)) _
  | _ => exact .skip

/-- And so does that of all elements. -/
theorem sameEffect_validateElements (config : Presence) (h : Attribute.Readable a) (q : Qualified)
    (value : Value) (loc : Location) :
    Issues.SameEffect (validateElements config a q value loc)
      (validateElements config a q (Attribute.deserialize a value) loc) := by
  unfold validateElements
  cases hsubs : Attribute.subs? a with
  | none => exact .skip
  | some subs =>
    have hread : elementsOf a (Attribute.deserialize a value) loc =
        (elementsOf a value loc).map fun element =>
          (element.1, (Kind.complex subs).deserialize element.2) := by
      unfold Attribute.deserialize
      rw [h.deserializer, Attribute.kind_of_subs? hsubs]
      exact elementsOf_convertWith value loc
    simp only [hread, List.foldl_map]
    exact .foldl fun element _ => sameEffect_validateElement config q (h.subs subs hsubs) element.1
      element.2

/-- Each of the three checks of an attribute finds the same codes after the value was read. -/
theorem sameEffect_validateAttribute (config : Presence) (h : Attribute.Readable a) (q : Qualified)
    {value : Value}
    (hkeys : ∀ subs ∈ Attribute.subs? a, ∀ fields ∈ value.records, Record.DeclaredBy fields subs)
    (loc : Location) :
    Issues.SameEffect (validateAttribute config a q value loc)
      (validateAttribute config a q (Attribute.deserialize a value) loc) := by
  have hread := Attribute.readsAs h hkeys
  have hpresence := a.validatePresence_congr config.direction (config.inclusivity q)
    (config.ignoresIssuer q) hread.present
  have helements := sameEffect_validateElements config h q value loc
  unfold validateAttribute
  simp only [hpresence, hread.null]
  exact .comp (.merge (.refl _) loc) (.unlessHalted (.ite (fun _ => .skip)
    fun _ => .comp (.merge hread.checked loc) (.unlessHalted helements loc)) loc)

/-! ## Parts -/

/-- The entry of an extension is a record, which is read, or it is left out before and after. -/
theorem entry_deserialize (hdata : s.Covers r) (hext : p ∈ s.extensionParts) :
    (∃ fields, Record.get? r p.uri.text = some (.complex fields) ∧
        Record.get? (s.deserialize r) p.uri.text =
          some (.complex (AttributeOf.convertRecord p.attributes.toList Attribute.deserialize fields)) ∧
        Record.DeclaredBy fields p.attributes) ∨
      Record.getD r p.uri.text = .null ∧ Record.getD (s.deserialize r) p.uri.text = .null := by
  have hread : ∀ value, Record.get? (s.deserialize r) p.uri.text = some value ↔ _ :=
    fun value => get?_convert_uri hext
  by_cases hrecord : ∃ fields, Record.get? r p.uri.text = some (.complex fields)
  · obtain ⟨fields, hget⟩ := hrecord
    have hkeys := (hdata.extensions p hext _ hget).resolve_left (by simp)
    simp only [Value.complex.injEq, exists_eq_left'] at hkeys
    exact .inl ⟨fields, hget, (hread _).mpr ⟨fields, hget, rfl⟩, hkeys⟩
  · refine .inr ⟨?_, ?_⟩
    · refine Record.getD_eq_null_iff.mpr fun value hget => ?_
      refine (hdata.extensions p hext value hget).resolve_right ?_
      rintro ⟨fields, rfl, -⟩
      exact hrecord ⟨fields, hget⟩
    · refine Record.getD_eq_null_iff.mpr fun value hget => ?_
      obtain ⟨fields, hfields, -⟩ := (hread value).mp hget
      exact absurd ⟨fields, hfields⟩ hrecord

/-- Nothing that a part declares is lost when the resource is read, and each value is read by its
    attribute. -/
theorem Part.data_deserialize (hdata : s.Covers r) (hp : p ∈ s.parts) :
    ∃ fields fields', p.data r = .ok fields ∧ p.data (s.deserialize r) = .ok fields' ∧
      (p.required = true → fields'.isEmpty = fields.isEmpty) ∧
      ∀ a ∈ p.attributes.toList, Record.get? fields' a.name.text =
        (Record.get? fields a.name.text).map (Attribute.deserialize a) := by
  rcases List.mem_cons.mp hp with rfl | hext
  · -- data of the base is never required as a whole
    refine ⟨r, s.deserialize r, data_basePart s r, data_basePart s _, fun hrequired => ?_,
      fun a ha => get?_convert_name ha⟩
    cases hrequired
  · rcases entry_deserialize hdata hext with ⟨fields, hget, hread, hkeys⟩ | ⟨hnull, hnull'⟩
    · exact ⟨fields, _, (data_eq_ok_iff hext).mpr (.inl hget),
        (data_eq_ok_iff hext).mpr (.inl hread),
        fun _ => AttributeOf.isEmpty_convertRecord hkeys,
        fun a ha => AttributeOf.get?_convertRecord ha fields⟩
    · exact ⟨[], [], (data_eq_ok_iff hext).mpr (.inr ⟨hnull, rfl⟩),
        (data_eq_ok_iff hext).mpr (.inr ⟨hnull', rfl⟩),
        fun _ => rfl, fun _ _ => rfl⟩

/-- The check of a part finds the same codes after the resource was read. -/
theorem sameEffect_validatePart (config : Presence) (complete : Bool) (hs : s.Readable)
    (hdata : s.Covers r) (hp : p ∈ s.parts) :
    Issues.SameEffect (validatePart r config complete · p)
      (validatePart (s.deserialize r) config complete · p) := by
  obtain ⟨fields, fields', hfields, hfields', hempty, hget⟩ := Part.data_deserialize hdata hp
  have hmissing : (complete && p.required && fields'.isEmpty) =
      (complete && p.required && fields.isEmpty) := by
    cases hrequired : p.required with
    | false => simp
    | true => rw [hempty hrequired]
  unfold validatePart
  simp only [hfields, hfields', hmissing]
  -- both sides miss the data, or both check the attributes
  refine .ite (fun _ => .addError rfl false _) fun _ => .foldl fun a ha => ?_
  have hvalue := Record.getD_of_map (Attribute.deserialize_null (hs p hp a ha)) (hget a ha)
  simp only [hvalue]
  refine sameEffect_validateAttribute config (hs p hp a ha) _ (fun subs hsubs record hrecord => ?_) _
  unfold Record.getD at hrecord
  cases hstored : Record.get? fields a.name.text with
  | none =>
    rw [hstored] at hrecord
    simp [Value.records] at hrecord
  | some value =>
    rw [hstored] at hrecord
    exact hdata.subs p hp a ha subs hsubs value (Part.value?_eq_some.mpr ⟨fields, hfields, hstored⟩)
      record hrecord

/-! ## The list of schemas -/

/-- The list of schemas is read as it is. -/
theorem deserialize_schemas (value : Value) :
    Attribute.deserialize CommonAttribute.schemas value = value := by
  -- a text is read as itself
  have hsame : ∀ item, SimpleKind.uriReference.deserialize item = item := by
    intro item
    cases item <;> rfl
  cases value with
  | list items => exact congrArg Value.list ((List.map_congr_left fun item _ => hsame item).trans
      (List.map_id items))
  | _ => rfl

/-- Whether an extension has data is not changed by reading. -/
theorem isPresent_deserialize_uri (hdata : s.Covers r) (hext : p ∈ s.extensionParts) :
    (Record.getD (s.deserialize r) p.uri.text).isPresent =
      (Record.getD r p.uri.text).isPresent := by
  rcases entry_deserialize hdata hext with ⟨fields, hget, hread, hkeys⟩ | ⟨hnull, hnull'⟩
  · rw [Record.getD_eq_complex_iff.mpr hget, Record.getD_eq_complex_iff.mpr hread]
    exact congrArg (!·) (AttributeOf.isEmpty_convertRecord hkeys)
  · rw [hnull, hnull']

/-- The search for unknown URIs does the same after the same codes. -/
theorem sameEffect_reportUnknown (known : List SchemaUri) (items : List Value) (index : Nat) :
    Issues.SameEffect (reportUnknown known · index items) (reportUnknown known · index items) := by
  induction items generalizing index with
  | nil => exact .skip
  | cons item rest ih =>
    cases item with
    | string s =>
      exact .comp (.ite (fun _ => .skip) fun _ => .addError rfl true _) (ih (index + 1))
    | _ => exact ih (index + 1)

/-- The check of the list of schemas finds the same codes after the resource was read. -/
theorem sameEffect_validateSchemas (hdata : s.Covers r) :
    Issues.SameEffect (s.validateSchemas r) (s.validateSchemas (s.deserialize r)) := by
  have hlist : Record.get? (s.deserialize r) "schemas" = Record.get? r "schemas" := by
    refine (get?_convert_name (a := CommonAttribute.schemas) s.schemas_mem).trans ?_
    show (Record.get? r "schemas").map _ = _
    rw [funext deserialize_schemas]
    exact Option.map_id_apply
  have hmissing : ∀ items, Issues.SameEffect (s.reportMissing r items)
      (s.reportMissing (s.deserialize r) items) := by
    refine fun items => .foldl fun p hp => ?_
    simp only [isPresent_deserialize_uri hdata hp]
    exact .ite (fun _ => .addError rfl true _) fun _ => .skip
  unfold validateSchemas
  refine .unlessHalted ?_ _
  simp only [hlist]
  split
  · rename_i items _
    have hbase := Issues.SameEffect.ite (c := declares items s.uri = true) (fun _ => .skip)
      fun _ => .addError (e := .missingBaseSchema s.uri.text) rfl true (.ofName "schemas")
    exact (hbase.comp (sameEffect_reportUnknown s.uris items 0)).comp (hmissing items)
  · exact .skip

/-! ## Resources -/

/-- The check of a resource finds the same codes, at the same places, as the check of what it is read
    as. -/
theorem validate_deserialize (hs : s.Readable) (hdata : s.Covers r) (config : Presence) :
    (s.validate r config).SameCodes (s.validate (s.deserialize r) config) := by
  -- part by part, from no issues at all
  have hparts : Issues.SameEffect (fun x => s.parts.foldl (validatePart r config true) x)
      fun x => s.parts.foldl (validatePart (s.deserialize r) config true) x :=
    .foldl fun p hp => sameEffect_validatePart config true hs hdata hp
  exact sameEffect_validateSchemas hdata (hparts (.refl .empty))

/-- The record with the time of its making may be checked before or after it is read. -/
theorem validate_deserialize_recordedStaffData :
    staffSchema.Readable ∧ staffSchema.Covers recordedStaffData ∧
      (staffSchema.validate recordedStaffData staffSchema.creation).SameCodes
        (staffSchema.validate (staffSchema.deserialize recordedStaffData) staffSchema.creation) := by
  have hs : staffSchema.Readable := by decide +kernel
  have hdata : staffSchema.Covers recordedStaffData :=
    covers_of_check (by decide +kernel) (by decide +kernel)
  exact ⟨hs, hdata, validate_deserialize hs hdata staffSchema.creation⟩

end Schema

end Scim
