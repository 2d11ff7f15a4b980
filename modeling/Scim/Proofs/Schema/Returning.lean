import Scim.Proofs.Schema.Projection
import Scim.Proofs.Schema.Validation

/-!
  # What is returned may be returned

  Whether a value is returned is decided twice: a projection keeps it or drops it, and the check of a
  response reports what must not be returned.  The check finds nothing to report in what a projection
  has kept, whatever the data and the list of attributes (`Schema.project_returnable`).  The one
  condition is on the schema: an attribute that is always returned is returned as it stands, so its
  sub-attributes must always be returned too.

    * What `returns` lets pass the check lets pass (`mayReturn_of_returns`).
    * A projection keeps values of attributes and sub-attributes that `returns` lets pass, and no
      others where a check would look (`Returnable`): an element of an element is kept as it is, and
      is not looked at.
    * All other errors of a check are about something else (`Attribute.only_validate`).
-/

namespace Scim

open Issues

/-- The error of returning what must not be returned is not among these. -/
def Error.Other (e : Error) : Prop := e ≠ .mustNotBeReturned

/-- What is wrong with a value is never that it must not be returned. -/
theorem Error.OfValue.other {e : Error} (h : e.OfValue) : e.Other := by
  rintro rfl
  exact h

namespace Schema

variable {s : Schema} {p : Part} {r : Record} {config : Presence} {q : Qualified} {a : Attribute}
  {c : Characteristics} {value kept : Value}

/-! ## The two decisions -/

/-- A value is not reported as one that must not be returned. -/
def MayReturn (config : Presence) (q : Qualified) (c : Characteristics) : Prop :=
  c.returned ≠ .never ∧ (c.returned = .always ∨ config.inclusivity q ≠ some .excluded)

/-- What is kept may be returned. -/
theorem mayReturn_of_returns (h : returns config c q = true) : MayReturn config q c := by
  unfold returns at h
  unfold MayReturn
  cases hreturned : c.returned with
  | never => simp [hreturned] at h
  | always => simp
  | onRequest =>
    have hincluded : config.inclusivity q = some .included := by simpa [hreturned] using h
    simp [hincluded]
  | byDefault =>
    have hallowed : config.selection.allowed q = true := by
      simpa [hreturned, Presence.allowed] using h
    refine ⟨by simp, .inr ?_⟩
    -- what is allowed was not declined
    unfold Presence.inclusivity Selection.inclusivity
    dsimp only
    split
    · simp
    · simp [hallowed]

/-- A presence check does not report a value that may be returned. -/
theorem only_validatePresence (h : value.isPresent = true → MayReturn config q c) :
    (c.validatePresence value config.direction (config.inclusivity q)
      (config.ignoresIssuer q)).Only Error.Other := by
  unfold Characteristics.validatePresence
  dsimp only
  split
  · rename_i hpresent
    split
    · exact only_mild (by simp [Error.Other]) _
    · split
      · -- it is reported as barred, which is against the condition
        rename_i hbarred
        have ⟨hnever, hexcluded⟩ := h hpresent
        exfalso
        rcases hexcluded with halways | hincluded
        · simp [halways] at hbarred
        · simp [hnever, hincluded] at hbarred
      · exact only_empty
  · split
    · exact only_fatal (by simp [Error.Other]) _
    · exact only_empty

/-! ## Attributes -/

/-- A record at the top of a value: the value itself, or an item of a list. -/
def TopRecord (value : Value) (fields : Record) : Prop :=
  value = .complex fields ∨ ∃ items, value = .list items ∧ .complex fields ∈ items

/-- A record among the elements is the value itself or an item of its list. -/
theorem topRecord_of_mem_elementsOf {loc : Location} {element : Location × Value} {fields : Record}
    (helement : element ∈ elementsOf a value loc) (hrecord : element.2 = .complex fields) :
    TopRecord value fields := by
  unfold elementsOf at helement
  split at helement
  · rename_i items
    split at helement
    · obtain ⟨⟨item, i⟩, hmem, rfl⟩ := List.mem_map.mp helement
      obtain rfl : item = .complex fields := hrecord
      exact .inr ⟨items, rfl, List.mem_of_getElem? (List.mk_mem_zipIdx_iff_getElem?.mp hmem)⟩
    · obtain rfl := List.mem_singleton.mp helement
      simp at hrecord
  · obtain rfl := List.mem_singleton.mp helement
    exact .inl hrecord

/-- What there is of an attribute may be returned, and so may what there is of its sub-attributes in
    the records at the top. -/
structure Returnable (config : Presence) (q : Qualified) (a : Attribute) (value : Value) : Prop where
  own : value.isPresent = true → MayReturn config q a.toCharacteristics
  subs : ∀ subs ∈ Attribute.subs? a, ∀ sub ∈ subs.toList, ∀ fields, TopRecord value fields →
    (Record.getD fields sub.name.text).isPresent = true →
      MayReturn config (q.child sub.name) sub.toCharacteristics

/-- Where there is no value there is nothing to be reported. -/
theorem returnable_null : Returnable config q a .null where
  own h := by simp [Value.isPresent] at h
  subs _ _ _ _ fields htop _ := by simp [TopRecord] at htop

/-- Nor do the checks of its elements report what may be returned. -/
theorem addsOnly_validateElements (h : Returnable config q a value) (loc : Location) :
    AddsOnly Error.Other (validateElements config a q value loc) := by
  unfold validateElements
  cases hsubs : Attribute.subs? a with
  | none => exact AddsOnly.skip
  | some subs =>
    refine AddsOnly.foldl fun element helement => ?_
    unfold validateElement
    cases hcomplex : element.2.complex? with
    | none => exact AddsOnly.skip
    | some fields =>
      have htop := topRecord_of_mem_elementsOf helement (Value.eq_complex_of_complex? hcomplex)
      exact AddsOnly.unlessHalted (AddsOnly.foldl fun sub hsub => AddsOnly.merge
        (only_validatePresence (h.subs subs hsubs sub hsub fields htop)) _) _

/-- The check of an attribute reports other things only, if its value may be returned. -/
theorem addsOnly_validateAttribute (hplain : Attribute.Plain a) (h : Returnable config q a value)
    (loc : Location) : AddsOnly Error.Other (validateAttribute config a q value loc) := by
  have hpresence := AddsOnly.merge (only_validatePresence h.own) loc
  have hvalue := AddsOnly.merge
    ((Attribute.only_validate hplain value).mono fun _ he => he.other) loc
  have helements := addsOnly_validateElements h loc
  -- the three steps one after the other, each left out where an earlier one halted
  have hsteps := AddsOnly.comp hpresence (AddsOnly.unlessHalted (AddsOnly.ite
    (c := value.isNull = true) (fun _ => AddsOnly.skip)
    fun _ => AddsOnly.comp hvalue (AddsOnly.unlessHalted helements loc)) loc)
  exact hsteps

/-! ## What is kept of an attribute -/

/-- What is left of an element has values of those sub-attributes only that are returned. -/
theorem returns_of_projectElement {subs : AttributeSet SimpleKind} {fields : Record}
    {sub : SubAttribute} (hsub : sub ∈ subs.toList)
    (h : (Record.getD (projectElement config q subs.toList fields) sub.name.text).isPresent = true) :
    returns config sub.toCharacteristics (q.child sub.name) = true := by
  obtain ⟨entry, hmem, hsame, -⟩ :=
    Record.mem_values.mp (Record.mem_values_of_get? (Record.get?_of_isPresent h))
  obtain ⟨sub', hsub', hkept⟩ := List.mem_filterMap.mp hmem
  split at hkept
  · rename_i hreturns
    obtain ⟨v, -, rfl⟩ := Option.map_eq_some_iff.mp hkept
    -- the entry is of the sub-attribute itself
    obtain rfl := subs.eq_of_sameKey hsub' hsub hsame
    exact hreturns
  · simp at hkept

/-- The records at the top of what is left of a value are what is left of records. -/
theorem topRecord_projectElements {subs : List SubAttribute} {fields : Record}
    (hkept : projectElements config q subs value = some kept) (htop : TopRecord kept fields) :
    ∃ before, fields = projectElement config q subs before := by
  unfold projectElements at hkept
  split at hkept
  · rename_i before
    simp only [Option.ite_none_left_eq_some, Option.some.injEq] at hkept
    obtain ⟨-, rfl⟩ := hkept
    rcases htop with hrecord | ⟨items, hlist, -⟩
    · exact ⟨before, by simpa [eq_comm] using hrecord⟩
    · simp at hlist
  · rename_i items
    simp only [Option.ite_none_left_eq_some, Option.some.injEq] at hkept
    obtain ⟨-, rfl⟩ := hkept
    rcases htop with hrecord | ⟨items', hlist, hmem⟩
    · simp at hrecord
    · obtain rfl := Value.list.inj hlist
      obtain ⟨item, -, hmade⟩ := List.mem_map.mp (List.mem_of_mem_filter hmem)
      split at hmade
      · rename_i before
        exact ⟨before, by simpa [eq_comm] using hmade⟩
      · rename_i hother
        exact absurd hmade (hother fields)
  · -- a value that is neither record nor list has no record at the top
    rename_i hcomplex hlist
    obtain rfl := Option.some.inj hkept
    rcases htop with rfl | ⟨items, rfl, -⟩
    · exact absurd rfl (hcomplex fields)
    · exact absurd rfl (hlist items)

/-- What is kept of an attribute may be returned. -/
theorem returnable_of_projectAttribute
    (halways : a.returned = .always → ∀ subs ∈ Attribute.subs? a, ∀ sub ∈ subs.toList,
      sub.returned = .always)
    (hkept : projectAttribute config a q value = some kept) : Returnable config q a kept := by
  unfold projectAttribute at hkept
  split at hkept
  · simp at hkept
  · rename_i hreturns
    have hown : returns config a.toCharacteristics q = true := by simpa using hreturns
    refine ⟨fun _ => mayReturn_of_returns hown, fun subs hsubs sub hsub fields htop hpresent => ?_⟩
    split at hkept
    · -- all sub-attributes are always returned
      rename_i hreturned
      have hsub := halways (by simpa using hreturned) subs hsubs sub hsub
      exact ⟨by simp [hsub], .inl hsub⟩
    · rw [Option.mem_def] at hsubs
      simp only [hsubs] at hkept
      obtain ⟨before, rfl⟩ := topRecord_projectElements hkept htop
      exact mayReturn_of_returns (returns_of_projectElement hsub hpresent)

/-! ## Resources -/

/-- Below an attribute that is always returned, all sub-attributes are. -/
def AlwaysWhole (s : Schema) : Prop :=
  ∀ p ∈ s.parts, ∀ a ∈ p.attributes.toList, a.returned = .always →
    ∀ subs ∈ Attribute.subs? a, ∀ sub ∈ subs.toList, sub.returned = .always

instance (s : Schema) : Decidable s.AlwaysWhole := by
  unfold AlwaysWhole
  infer_instance

/-- A value in the data of a part of a projection was kept of a value of the attribute. -/
theorem exists_of_get?_project {fields : Record} (hp : p ∈ s.parts)
    (hdata : p.data (s.project r config) = .ok fields) (ha : a ∈ p.attributes.toList)
    (hget : Record.get? fields a.name.text = some kept) :
    ∃ value, projectAttribute config a (Qualified.ofAttr p.uri a.name) value = some kept := by
  have hvalues : ∃ data, kept ∈ (p.project config data).values a.name.text := by
    -- the base is the resource itself, an extension an entry of it
    rcases List.mem_cons.mp hp with rfl | hext
    · obtain rfl : s.project r config = fields := by simpa [data_basePart] using hdata
      have hmem := Record.mem_values_of_get? hget
      rw [values_project_name] at hmem
      exact ⟨r, hmem⟩
    · rcases (data_eq_ok_iff hext).mp hdata with hentry | ⟨-, rfl⟩
      · obtain ⟨data, -, -, hfields⟩ :=
          (mem_values_project_uri hext).mp (Record.mem_values_of_get? hentry)
        obtain rfl := Value.complex.inj hfields
        exact ⟨data, Record.mem_values_of_get? hget⟩
      · simp [Record.get?] at hget
  obtain ⟨data, hvalues⟩ := hvalues
  obtain ⟨value, -, hkept⟩ := (Part.mem_values_project ha).mp hvalues
  exact ⟨value, hkept⟩

/-- So does the check of a part of a projection. -/
theorem addsOnly_validatePart (hplain : s.Plain) (halways : s.AlwaysWhole) (hp : p ∈ s.parts)
    (complete : Bool) :
    AddsOnly Error.Other (validatePart (s.project r config) config complete · p) := by
  unfold validatePart
  cases hdata : p.data (s.project r config) with
  | error other => exact AddsOnly.addError (by simp [Error.Other]) _ _
  | ok fields =>
    refine AddsOnly.ite (fun _ => AddsOnly.addError (by simp [Error.Other]) _ _) fun _ =>
      AddsOnly.foldl fun a ha => addsOnly_validateAttribute (hplain p hp a ha) ?_ _
    -- without a value there is nothing to report
    cases hget : Record.get? fields a.name.text with
    | none => simpa [Record.getD, hget] using returnable_null
    | some kept =>
      obtain ⟨value, hkept⟩ := exists_of_get?_project hp hdata ha hget
      have hreturnable := returnable_of_projectAttribute (halways p hp a ha) hkept
      simpa [Record.getD, hget] using hreturnable

/-- Unknown schemas are reported as such. -/
theorem addsOnly_reportUnknown (known : List SchemaUri) (items : List Value) :
    ∀ index, AddsOnly Error.Other (reportUnknown known · index items) := by
  induction items with
  | nil => exact fun _ => AddsOnly.skip
  | cons item rest ih =>
    intro index
    cases item with
    | string text =>
      exact AddsOnly.comp (AddsOnly.ite (fun _ => AddsOnly.skip) fun _ =>
        AddsOnly.addError (by simp [Error.Other]) _ _) (ih (index + 1))
    | _ => exact ih (index + 1)

/-- Schemas that are missing from the list are reported as such. -/
theorem addsOnly_reportMissing (s : Schema) (r : Record) (items : List Value) :
    AddsOnly Error.Other (s.reportMissing r items) :=
  AddsOnly.foldl fun _ _ => AddsOnly.ite (fun _ => AddsOnly.addError (by simp [Error.Other]) _ _)
    fun _ => AddsOnly.skip

/-- The check of the list of schemas reports errors about that list. -/
theorem addsOnly_validateSchemas (s : Schema) (r : Record) :
    AddsOnly Error.Other (s.validateSchemas r) := by
  refine AddsOnly.unlessHalted ?_ _
  split
  · rename_i items _
    have hbase : AddsOnly Error.Other fun issues => if declares items s.uri then issues
        else issues.addError (.missingBaseSchema s.uri.text) true (.ofName "schemas") :=
      AddsOnly.ite (fun _ => AddsOnly.skip) fun _ => AddsOnly.addError (by simp [Error.Other]) _ _
    have hsteps := AddsOnly.comp hbase (AddsOnly.comp (addsOnly_reportUnknown s.uris items 0)
      (addsOnly_reportMissing s r items))
    exact hsteps
  · exact AddsOnly.skip

/-- No value of a projection is reported as one that must not be returned. -/
theorem project_returnable (hplain : s.Plain) (halways : s.AlwaysWhole) (r : Record)
    (config : Presence) (l : Location) :
    (l, .mustNotBeReturned) ∉ (s.validate (s.project r config) config).allErrors := by
  have hparts : AddsOnly Error.Other fun issues =>
      s.parts.foldl (validatePart (s.project r config) config true) issues :=
    AddsOnly.foldl fun p hp => addsOnly_validatePart hplain halways hp true
  intro hmem
  exact addsOnly_validateSchemas s _ (hparts only_empty) hmem rfl

/-- Nothing is reported of a vault without its pin. -/
theorem project_returnable_vault :
    (vaultSchema .byDefault).Plain ∧ (vaultSchema .byDefault).AlwaysWhole ∧
      ∀ l, (l, .mustNotBeReturned) ∉ ((vaultSchema .byDefault).validate
        ((vaultSchema .byDefault).project vaultData .response) .response).allErrors := by
  have hplain : (vaultSchema .byDefault).Plain := by decide +kernel
  have halways : (vaultSchema .byDefault).AlwaysWhole := by decide +kernel
  exact ⟨hplain, halways, project_returnable hplain halways vaultData .response⟩

/-- The pin is reported that a vault lets through if it is always returned. -/
example : ([.name "vault", .name "pin"], .mustNotBeReturned) ∈ ((vaultSchema .always).validate
    ((vaultSchema .always).project vaultData .response) .response).allErrors := by
  decide +kernel

end Schema

end Scim
