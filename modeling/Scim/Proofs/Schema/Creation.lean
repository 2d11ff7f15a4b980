import Scim.Proofs.Schema.Validation

/-!
  # What a resource must be to be created

  A client that creates a resource asks for everything that is required.  `Creatable` says of the
  data, without any order of checks, what it must be: the entries of the extensions are in order,
  every attribute is `Acceptable`, and the list of schemas says what there is.  Without further
  validators `validate` finds no error just in such data.

    * The attributes are right for creation just if they pass a check that asks for what is required
      (`passes_creation_iff`), and `validateAttributes_iff` says when they do.
    * The list of what is asked for is made from the schema itself: whatever is required is on it
      (`asked_attribute`, `asked_child`).
    * The list of schemas is looked at only if it is a list.  That it is one follows from the check
      of the common attribute that holds it (`exists_schemas_list`).
-/

namespace Scim

/-! ## Values -/

/-- A client gives no value that the service provider issues, and otherwise gives one if it is
    required. -/
def Characteristics.Supplied (c : Characteristics) (value : Value) : Prop :=
  if c.issuer = .serviceProvider then value.isPresent = false
  else c.required = true → value.isPresent = true

/-- What the value of an attribute must be in a resource to be created. -/
structure Attribute.Acceptable (a : Attribute) (value : Value) : Prop where
  valid : (Attribute.validate a value).hasErrors = false
  supplied : a.Supplied value
  /-- Sub-attributes are supplied in every element. -/
  subs : ∀ subs ∈ Attribute.subs? a, ∀ sub ∈ subs.toList, ∀ fields ∈ value.records,
    sub.Supplied (Record.getD fields sub.name.text)

/-! ## Resources -/

/-- The URIs that the list of schemas of a resource names, in lower case. -/
def Record.schemaKeys (r : Record) : List String :=
  match Record.get? r "schemas" with
  | some (.list items) => (items.filterMap Value.string?).map Text.lower
  | _ => []

namespace Schema

/-- What an extension must have for an entry: a record or nothing, and a record that is not empty if
    data of the extension is required. -/
structure Part.EntryFits (p : Part) (r : Record) : Prop where
  container : Record.getD r p.uri.text = .null ∨
    ∃ fields, Record.getD r p.uri.text = .complex fields
  required : p.required = true →
    ∃ fields, Record.getD r p.uri.text = .complex fields ∧ fields ≠ []

/-- The list of schemas names the base, nothing unknown, and every extension with data. -/
structure SchemasFit (s : Schema) (r : Record) : Prop where
  base : s.uri.key ∈ r.schemaKeys
  known : ∀ key ∈ r.schemaKeys, ∃ uri ∈ s.uris, uri.key = key
  extensions : ∀ p ∈ s.extensionParts, (Record.getD r p.uri.text).isPresent = true →
    p.uri.key ∈ r.schemaKeys

/-- What a resource must be to be created. -/
structure Creatable (s : Schema) (r : Record) : Prop where
  entries : ∀ p ∈ s.extensionParts, p.EntryFits r
  attributes : ∀ p ∈ s.parts, ∀ a ∈ p.attributes.toList,
    Attribute.Acceptable a ((p.value? r a).getD .null)
  schemas : s.SchemasFit r

/-- A request that asks for everything required. -/
def creation (s : Schema) : Presence :=
  Presence.request.including (s.requiredReferences.map .qualified)

/-! ## What is asked for -/

variable {s : Schema} {r : Record}

/-- What has these characteristics is asked for by name if it is required. -/
def Asked (s : Schema) (q : Qualified) (c : Characteristics) : Prop :=
  c.required = true → s.creation.inclusivity q = some .included

/-- What is on the list of what is required is asked for by name. -/
theorem inclusivity_of_mem {q : Qualified} (h : q ∈ s.requiredReferences) :
    s.creation.inclusivity q = some .included := by
  have hlisted : Selection.listed s.creation.selection.refs q = true :=
    List.any_eq_true.mpr ⟨.qualified q, List.mem_map_of_mem h, q.same_self⟩
  have hincludes : s.creation.selection.includes? = some true := rfl
  simp [Presence.inclusivity, Selection.inclusivity, hincludes, hlisted]

/-- What is required of an attribute is on the list of the schema. -/
theorem mem_requiredReferences {p : Part} {a : Attribute} (hp : p ∈ s.parts)
    (ha : a ∈ p.attributes.toList) {q : Qualified} (h : q ∈ p.requiredReferencesOf a) :
    q ∈ s.requiredReferences :=
  List.mem_flatMap.mpr ⟨p, hp, List.mem_flatMap.mpr ⟨a, ha, h⟩⟩

/-- A required attribute is asked for. -/
theorem asked_attribute {p : Part} {a : Attribute} (hp : p ∈ s.parts)
    (ha : a ∈ p.attributes.toList) :
    s.Asked (Qualified.ofAttr p.uri a.name) a.toCharacteristics := by
  intro hrequired
  apply inclusivity_of_mem (mem_requiredReferences hp ha ?_)
  simp [Part.requiredReferencesOf, hrequired]

/-- And so is a required sub-attribute. -/
theorem asked_child {p : Part} {a : Attribute} (hp : p ∈ s.parts) (ha : a ∈ p.attributes.toList) :
    ∀ subs ∈ Attribute.subs? a, ∀ sub ∈ subs.toList,
      s.Asked ((Qualified.ofAttr p.uri a.name).child sub.name) sub.toCharacteristics := by
  intro subs hsubs sub hsub hrequired
  apply inclusivity_of_mem (mem_requiredReferences hp ha (List.mem_append_left _ ?_))
  rw [Option.mem_def] at hsubs
  simp only [hsubs]
  exact List.mem_map_of_mem (List.mem_filter.mpr ⟨hsub, hrequired⟩)

/-- No exception is made for what the service provider issues. -/
theorem ignoresIssuer_creation (s : Schema) (q : Qualified) : s.creation.ignoresIssuer q = false := by
  have hlist : s.creation.ignoreIssuer = [] := rfl
  simp [Presence.ignoresIssuer, Selection.listed, hlist]

end Schema

/-! ## Presence -/

/-- In a request that asks for what is required, the check of presence finds no error just where the
    value is supplied. -/
theorem Characteristics.validatePresence_iff {c : Characteristics} {inclusivity : Option Inclusivity}
    (hasked : c.required = true → inclusivity = some .included) (value : Value) :
    (c.validatePresence value .request inclusivity false).hasErrors = false ↔ c.Supplied value := by
  unfold validatePresence Supplied isServiceIssued
  -- a value is for the service provider to give, it is there, or it is missing and perhaps required
  by_cases hissuer : c.issuer = .serviceProvider
  · by_cases hpresent : value.isPresent = true
    · simp [hissuer, hpresent]
    · simp [hissuer, hpresent]
  · by_cases hpresent : value.isPresent = true
    · simp [hissuer, hpresent]
    · by_cases hrequired : c.required = true
      · simp [hissuer, hpresent, hrequired, hasked hrequired]
      · simp [hissuer, hpresent, hrequired]

namespace Schema

open Issues

/-- What a request that asks for everything required admits is what a client supplies. -/
theorem admits_creation_iff {s : Schema} {c : Characteristics} {q : Qualified} (hasked : s.Asked q c)
    (value : Value) : s.creation.Admits q c value ↔ c.Supplied value := by
  unfold Presence.Admits
  rw [ignoresIssuer_creation]
  exact c.validatePresence_iff hasked value

/-- A value passes a request that asks for everything required just if it is acceptable. -/
theorem passes_creation_iff {s : Schema} {p : Part} {a : Attribute} (hp : p ∈ s.parts)
    (ha : a ∈ p.attributes.toList) (value : Value) :
    s.creation.Passes (Qualified.ofAttr p.uri a.name) a value ↔ Attribute.Acceptable a value := by
  have hown := admits_creation_iff (asked_attribute hp ha) value
  have hsub : ∀ subs ∈ Attribute.subs? a, ∀ sub ∈ subs.toList, ∀ fields : Record,
      s.creation.Admits ((Qualified.ofAttr p.uri a.name).child sub.name) sub.toCharacteristics
        (Record.getD fields sub.name.text) ↔ sub.Supplied (Record.getD fields sub.name.text) :=
    fun subs hsubs sub hmem fields => admits_creation_iff (asked_child hp ha subs hsubs sub hmem) _
  constructor
  · rintro ⟨hvalid, hadmitted, hsubs⟩
    exact ⟨hvalid, hown.mp hadmitted, fun subs hmem sub hsubmem fields hfields =>
      (hsub subs hmem sub hsubmem fields).mp (hsubs subs hmem sub hsubmem fields hfields)⟩
  · rintro ⟨hvalid, hsupplied, hsubs⟩
    exact ⟨hvalid, hown.mpr hsupplied, fun subs hmem sub hsubmem fields hfields =>
      (hsub subs hmem sub hsubmem fields).mpr (hsubs subs hmem sub hsubmem fields hfields)⟩

/-! ## Parts -/

/-- What is right about the data of a part: there is a record, or nothing need be there, and all
    attributes are acceptable. -/
def Part.Fits (p : Part) (r : Record) : Prop :=
  ∃ fields, p.data r = .ok fields ∧ (p.required = true → fields ≠ []) ∧
    ∀ a ∈ p.attributes.toList, Attribute.Acceptable a (Record.getD fields a.name.text)

/-- A part passes just if it fits. -/
theorem passes_creation_part_iff {s : Schema} (r : Record) {p : Part} (hp : p ∈ s.parts) :
    p.Passes s.creation true r ↔ p.Fits r := by
  refine exists_congr fun fields => and_congr_right fun _ => ?_
  rw [forall_prop_of_true rfl]
  exact and_congr_right fun _ => forall_congr' fun a => forall_congr' fun ha =>
    passes_creation_iff hp ha _

/-- The checks of the attributes find no error just if all parts fit. -/
theorem reports_validateAttributes {s : Schema} (hplain : s.Plain) (r : Record) :
    (s.validateAttributes r s.creation true).Earnest ∧
      ((s.validateAttributes r s.creation true).hasErrors = false ↔ ∀ p ∈ s.parts, p.Fits r) := by
  have ⟨hearnest, hpasses⟩ := validateAttributes_iff hplain.earnest r s.creation true
  refine ⟨hearnest, hpasses.trans ?_⟩
  exact forall_congr' fun p => forall_congr' fun hp => passes_creation_part_iff r hp

/-! ## The list of schemas -/

/-- A list names a URI, in whatever casing, just if its key is among those of its texts. -/
theorem declares_iff {items : List Value} {uri : SchemaUri} :
    declares items uri = true ↔ uri.key ∈ (items.filterMap Value.string?).map Text.lower := by
  simp only [declares, List.any_eq_true, List.mem_map, List.mem_filterMap]
  constructor
  · rintro ⟨item, hmem, hsame⟩
    cases item <;> simp at hsame
    exact ⟨_, ⟨_, hmem, rfl⟩, hsame⟩
  · rintro ⟨text, ⟨item, hmem, htext⟩, hkey⟩
    cases item <;> simp [Value.string?] at htext
    exact ⟨_, hmem, by simp [htext, hkey]⟩

/-- The search for unknown URIs reports whether all are known. -/
theorem reports_reportUnknown (known : List SchemaUri) (items : List Value) :
    ∀ index, Reports (reportUnknown known · index items)
      (∀ key ∈ (items.filterMap Value.string?).map Text.lower, ∃ uri ∈ known, uri.key = key) := by
  -- along the list, of which only texts are looked at
  induction items with
  | nil => exact fun _ => Reports.skip.congr (by simp)
  | cons item rest ih =>
    intro index
    cases item with
    | string text =>
      have hfirst := Reports.ite (c := known.any (·.key == Text.lower text) = true)
        (fun _ => Reports.skip) fun _ =>
          Reports.addError (.unknownSchema text) true [.name "schemas", .index index]
      refine (hfirst.comp (ih (index + 1))).congr ?_
      simp [Value.string?]
    | _ => exact ih (index + 1)

/-- That for missing ones reports whether all extensions with data are named. -/
theorem reports_reportMissing (s : Schema) (r : Record) (items : List Value) :
    Reports (s.reportMissing r items)
      (∀ p ∈ s.extensionParts, (Record.getD r p.uri.text).isPresent = true →
        p.uri.key ∈ (items.filterMap Value.string?).map Text.lower) := by
  refine Reports.foldl fun p _ => (Reports.ite
    (fun _ => Reports.addError (.missingSchemaExtension p.uri.text) true (.ofName "schemas"))
    fun _ => Reports.skip).congr ?_
  rw [← declares_iff]
  simp

/-- The list of schemas is checked if it is a list; what else stands in its place is not looked
    at. -/
theorem reports_validateSchemas (s : Schema) (r : Record) :
    Reports (s.validateSchemas r)
      (∀ items, Record.get? r "schemas" = some (.list items) → s.SchemasFit r) := by
  by_cases hlist : ∃ items, Record.get? r "schemas" = some (.list items)
  · obtain ⟨items, hlist⟩ := hlist
    have hkeys : r.schemaKeys = (items.filterMap Value.string?).map Text.lower := by
      simp only [Record.schemaKeys, hlist]
    have hbase := Reports.ite (c := declares items s.uri = true) (fun _ => Reports.skip)
      fun _ => Reports.addError (.missingBaseSchema s.uri.text) true (.ofName "schemas")
    -- the three checks one after the other
    have hsteps := hbase.comp ((reports_reportUnknown s.uris items 0).comp
      (reports_reportMissing s r items))
    unfold validateSchemas
    simp only [hlist]
    refine (hsteps.unlessHalted (.ofName "schemas")).congr ?_
    simp only [declares_iff, implies_true, true_and, imp_false, Classical.not_not, ← hkeys]
    exact ⟨fun ⟨hbase, hknown, hextensions⟩ _ _ => ⟨hbase, hknown, hextensions⟩,
      fun h => have ⟨hbase, hknown, hextensions⟩ := h items rfl; ⟨hbase, hknown, hextensions⟩⟩
  · unfold validateSchemas
    refine Reports.congr ?_ (iff_of_true trivial fun items hitems => absurd ⟨items, hitems⟩ hlist)
    refine Reports.unlessHalted ?_ _
    split
    · exact absurd ⟨_, ‹_›⟩ hlist
    · exact Reports.skip

/-- The common attribute that holds the list of schemas belongs to every schema. -/
theorem schemas_mem (s : Schema) : CommonAttribute.schemas ∈ s.basePart.attributes.toList :=
  s.common.mem (by simp [CommonAttribute.all])

/-- Where that attribute is acceptable, there is a list. -/
theorem exists_schemas_list {r : Record}
    (h : Attribute.Acceptable CommonAttribute.schemas (Record.getD r "schemas")) :
    ∃ items, Record.get? r "schemas" = some (.list items) := by
  have hpresent : (Record.getD r "schemas").isPresent = true := h.supplied rfl
  have hform := AttributeOf.hasForm_of_validateWith Issues.hereditary_noErrors h.valid
  -- the attribute is required, so null will not do
  rcases hform with hnull | ⟨items, hitems, -⟩
  · simp [hnull, Value.isPresent] at hpresent
  · refine ⟨items, ?_⟩
    cases hget : Record.get? r "schemas" with
    | none => simp [Record.getD, hget] at hitems
    | some value => simpa [Record.getD, hget] using hitems

/-! ## Resources -/

/-- A part fits just if its data are there as far as they must be, and its values are acceptable. -/
theorem Part.fits_iff {r : Record} {p : Part} :
    p.Fits r ↔ (∃ fields, p.data r = .ok fields ∧ (p.required = true → fields ≠ [])) ∧
      ∀ a ∈ p.attributes.toList, Attribute.Acceptable a ((p.value? r a).getD .null) :=
  p.exists_data_iff r (fun fields => p.required = true → fields ≠ []) Attribute.Acceptable

/-- The entry of an extension fits just if it gives the data of the extension. -/
theorem entryFits_iff {s : Schema} {r : Record} {p : Part} (hp : p ∈ s.extensionParts) :
    p.EntryFits r ↔ ∃ fields, p.data r = .ok fields ∧ (p.required = true → fields ≠ []) := by
  simp only [data_eq_ok_iff hp, ← Record.getD_eq_complex_iff]
  constructor
  · rintro ⟨hnull | ⟨fields, hfields⟩, hrequired⟩
    · refine ⟨[], Or.inr ⟨hnull, rfl⟩, fun h => ?_⟩
      obtain ⟨fields, hfields, -⟩ := hrequired h
      simp [hnull] at hfields
    · refine ⟨fields, Or.inl hfields, fun h => ?_⟩
      obtain ⟨fields', hfields', hne⟩ := hrequired h
      obtain rfl : fields = fields' := by simpa [hfields] using hfields'
      exact hne
  · rintro ⟨fields, hfields | ⟨hnull, rfl⟩, hrequired⟩
    · exact ⟨Or.inr ⟨fields, hfields⟩, fun h => ⟨fields, hfields, hrequired h⟩⟩
    · exact ⟨Or.inl hnull, fun h => absurd rfl (hrequired h)⟩

/-- All parts fit just if the entries of the extensions do, and every attribute of a part. -/
theorem forall_fits_iff (s : Schema) (r : Record) :
    (∀ p ∈ s.parts, p.Fits r) ↔ (∀ p ∈ s.extensionParts, p.EntryFits r) ∧
      ∀ p ∈ s.parts, ∀ a ∈ p.attributes.toList,
        Attribute.Acceptable a ((p.value? r a).getD .null) := by
  constructor
  · intro h
    refine ⟨fun p hp => ?_, fun p hp => (Part.fits_iff.mp (h p hp)).2⟩
    exact (entryFits_iff hp).mpr (Part.fits_iff.mp (h p (mem_parts_of_mem_extensionParts hp))).1
  · rintro ⟨hentries, hall⟩ p hp
    refine Part.fits_iff.mpr ⟨?_, hall p hp⟩
    rcases List.mem_cons.mp hp with rfl | hext
    · -- the base has no entry of its own, and is not required to have data
      exact ⟨r, data_basePart s r, fun h => absurd h Bool.false_ne_true⟩
    · exact (entryFits_iff hext).mp (hentries p hext)

/-- Without further validators, a resource is found right for creation just if it is. -/
theorem validate_creation_iff {s : Schema} (hplain : s.Plain) (r : Record) :
    (s.validate r s.creation).hasErrors = false ↔ s.Creatable r := by
  have ⟨hearnest, hattributes⟩ := reports_validateAttributes hplain r
  unfold validate
  -- the list of schemas is checked last, on issues that are earnest
  rw [(reports_validateSchemas s r).hasErrors_iff hearnest, hattributes, forall_fits_iff]
  constructor
  · rintro ⟨⟨hentries, hall⟩, hschemas⟩
    have hlist := hall s.basePart List.mem_cons_self CommonAttribute.schemas s.schemas_mem
    rw [Part.value?_of_data (data_basePart s r)] at hlist
    obtain ⟨items, hitems⟩ := exists_schemas_list hlist
    exact ⟨hentries, hall, hschemas items hitems⟩
  · intro h
    exact ⟨⟨h.entries, h.attributes⟩, fun _ _ => h.schemas⟩

/-! ## A member of staff -/

/-- The attribute that holds the badges of a member of staff. -/
def badges : Name := ⟨"badges", by decide +kernel⟩

/-- The sub-attribute that holds the number of a badge. -/
def badgeNumber : Name := ⟨"number", by decide +kernel⟩

/-- What a company knows of its staff: badges, each with a number. -/
def staffExtension : Extension where
  uri := ⟨"urn:Staff", true, by decide +kernel⟩
  name := "Staff"
  description := "Members of staff"
  attributes :=
    { toList :=
        [ { name := badges
            required := true
            multiValued := true
            kind := .complex
              { toList :=
                  [{ name := badgeNumber, kind := .string, required := true }]
                distinct := by decide +kernel } } ]
      distinct := by decide +kernel }
  isExtension := rfl

/-- The name of a person. -/
def userName : Attribute where
  name := ⟨"userName", by decide +kernel⟩
  kind := .simple .string
  required := true

/-- The schema of persons, all of them members of staff. -/
def staffSchema : Schema where
  uri := ⟨"urn:Person", false, by decide +kernel⟩
  name := "Person"
  endpoint := "/Persons"
  description := "Persons"
  attributes := ⟨CommonAttribute.all ++ [userName], by decide +kernel⟩
  extensions := [⟨staffExtension, true⟩]
  isBase := rfl
  distinct := by decide +kernel
  common := List.prefix_append _ _

/-- A person with a badge. -/
def staffData : Record :=
  [ ("schemas", .list [.string "URN:person", .string "urn:Staff"]),
    ("userName", .string "kim"),
    ("urn:Staff", .complex [("badges", .list [.complex [("number", .string "7")]])]) ]

/-- The check finds that the person can be created, and so it is. -/
theorem creatable_staffData : staffSchema.Plain ∧ staffSchema.Creatable staffData := by
  have hplain : staffSchema.Plain := by
    have hvalidators : ∀ p ∈ staffSchema.parts, ∀ a ∈ p.attributes.toList, a.validators = [] ∧
        ∀ subs ∈ Attribute.subs? a, ∀ sub ∈ subs.toList, sub.validators = [] := by
      decide +kernel
    intro p hp a ha
    exact ⟨(hvalidators p hp a ha).1, (hvalidators p hp a ha).2⟩
  exact ⟨hplain, (validate_creation_iff hplain staffData).mp (by decide +kernel)⟩

end Schema

end Scim
