import Scim.Proofs.Issues.Confined
import Scim.Proofs.Schema.Creation

/-!
  # Attributes are checked independently of each other

  All attributes of a resource file their issues into one collection, and what halts one of them is
  read off that collection.  Yet each attribute gets the issues that it would get alone:

    * the check of an attribute keeps to its place (`confined_validateAttribute`), that of an
      extension to its URI, that of the list of schemas to `schemas`;
    * the places are apart, since names and URIs of a schema are different keys, so each check is
      made as if nothing had been found before (`within_validate_attribute`,
      `within_validate_extension`, `within_validate_schemas`);
    * each check reads one entry of the resource, only that of the list of schemas reads beside it
      which extensions have data.

  So what is found at a place depends on that entry alone (`independent_validate`).
-/

namespace Scim

open Issues (Confined)
open Location (Apart)

namespace Schema

variable {s : Schema} {config : Presence} {p : Part} {a : Attribute} {r r' : Record}

/-! ## Each check keeps to its place -/

/-- The elements of a value lie at its place or below. -/
theorem prefix_of_mem_elementsOf {value : Value} {loc : Location} {element : Location × Value}
    (h : element ∈ elementsOf a value loc) : loc <+: element.1 := by
  have hself : ∀ v, element ∈ [(loc, v)] → loc <+: element.1 := by
    intro v hv
    exact List.mem_singleton.mp hv ▸ List.prefix_rfl
  unfold elementsOf at h
  split at h
  · split at h
    · obtain ⟨⟨item, i⟩, -, rfl⟩ := List.mem_map.mp h
      exact List.prefix_append loc [.index i]
    · exact hself _ h
  · exact hself _ h

/-- The check of an element keeps to the place of the value. -/
theorem confined_validateElement (config : Presence) (q : Qualified) (subs : List SubAttribute)
    {loc : Location} {element : Location × Value} (h : loc <+: element.1) :
    Confined loc (validateElement config q subs · element) := by
  unfold validateElement
  cases element.2.complex? with
  | none => exact Confined.skip loc
  | some fields =>
    refine Confined.unlessHalted (Confined.foldl fun sub _ => ?_) h
    exact Confined.merge _ (h.trans (List.prefix_append element.1 [.name sub.name.text]))

/-- And so does that of all elements. -/
theorem confined_validateElements (config : Presence) (a : Attribute) (q : Qualified) (value : Value)
    {loc place : Location} (h : loc <+: place) :
    Confined loc (validateElements config a q value place) := by
  unfold validateElements
  cases Attribute.subs? a with
  | none => exact Confined.skip loc
  | some subs =>
    exact Confined.foldl fun element helement =>
      confined_validateElement config q subs.toList (h.trans (prefix_of_mem_elementsOf helement))

/-- An attribute files its issues at or below its place, and waits only for what halts there. -/
theorem confined_validateAttribute (config : Presence) (a : Attribute) (q : Qualified) (value : Value)
    {loc place : Location} (h : loc <+: place) :
    Confined loc (validateAttribute config a q value place) := by
  unfold validateAttribute
  refine (Confined.merge _ h).comp (Confined.unlessHalted ?_ h)
  refine Confined.ite (fun _ => Confined.skip loc) fun _ => ?_
  exact (Confined.merge _ h).comp
    (Confined.unlessHalted (confined_validateElements config a q value h) h)

/-- The attributes of an extension lie below its URI. -/
theorem locationOf_extension (h : p.uri.isExtension = true) (a : Attribute) :
    p.locationOf a = [.name p.uri.text, .name a.name.text] := by
  rw [Part.locationOf, if_pos h]

/-- Those of the base lie at the top. -/
theorem locationOf_base (a : Attribute) : s.basePart.locationOf a = .ofName a.name.text := by
  rw [Part.locationOf, if_neg (by simp [isExtension_basePart])]
  rfl

/-- The check of an extension keeps to its URI. -/
theorem confined_validatePart (h : p.uri.isExtension = true) (r : Record) (config : Presence)
    (complete : Bool) :
    Confined (.ofName p.uri.text) (validatePart r config complete · p) := by
  -- an error at the URI itself, or the issues of attributes below it
  unfold validatePart
  cases p.data r with
  | error other => exact Confined.addError _ _ List.prefix_rfl
  | ok fields =>
    refine Confined.ite (fun _ => Confined.addError _ _ List.prefix_rfl) fun _ => ?_
    refine Confined.foldl fun a _ => confined_validateAttribute config a _ _ ?_
    rw [locationOf_extension h]
    exact List.prefix_append [Step.name p.uri.text] [Step.name a.name.text]

/-- The search for unknown URIs keeps to the list of schemas. -/
theorem confined_reportUnknown (known : List SchemaUri) (items : List Value) (index : Nat) :
    Confined (.ofName "schemas") (reportUnknown known · index items) := by
  induction items generalizing index with
  | nil => exact Confined.skip _
  | cons item rest ih =>
    cases item with
    | string text =>
      refine Confined.comp (Confined.ite (fun _ => Confined.skip _) fun _ => ?_) (ih (index + 1))
      exact Confined.addError _ _ (List.prefix_append [Step.name "schemas"] [Step.index index])
    | _ => exact ih (index + 1)

/-- And so does that for missing ones. -/
theorem confined_reportMissing (s : Schema) (r : Record) (items : List Value) :
    Confined (.ofName "schemas") (s.reportMissing r items) :=
  Confined.foldl fun _ _ =>
    Confined.ite (fun _ => Confined.addError _ _ List.prefix_rfl) fun _ => Confined.skip _

/-- The check of the list of schemas keeps to its place. -/
theorem confined_validateSchemas (s : Schema) (r : Record) :
    Confined (.ofName "schemas") (s.validateSchemas r) := by
  unfold validateSchemas
  refine Confined.unlessHalted ?_ List.prefix_rfl
  split
  · refine Confined.comp (Confined.comp (Confined.ite (fun _ => Confined.skip _) fun _ => ?_)
      (confined_reportUnknown s.uris _ 0)) (confined_reportMissing s r _)
    exact Confined.addError _ _ List.prefix_rfl
  · exact Confined.skip _

/-! ## The places are apart -/

/-- Different keys are places apart. -/
theorem apart_ofName {key key' : String} (h : Record.sameKey key key' = false) :
    Apart (.ofName key) (.ofName key') := by
  refine Location.apart_singleton fun hstep => ?_
  obtain rfl := Step.name.inj hstep
  simp [Record.sameKey] at h

/-- The attributes of the base lie apart from each other. -/
theorem pairwise_apart_attributes (s : Schema) :
    s.attributes.toList.Pairwise fun a b =>
      Apart (.ofName a.name.text) (.ofName b.name.text) := by
  refine (List.pairwise_map.mp s.attributes.distinct).imp fun {a b} hne => ?_
  exact apart_ofName (Bool.eq_false_iff.mpr fun h => hne (Record.sameKey_iff.mp h))

/-- So do the extensions. -/
theorem pairwise_apart_extensions (s : Schema) :
    s.extensionParts.Pairwise fun p p' => Apart (.ofName p.uri.text) (.ofName p'.uri.text) := by
  have hdistinct := (List.nodup_cons.mp s.nodup_keys_parts).2
  refine (List.pairwise_map.mp hdistinct).imp fun {p p'} hne => ?_
  exact apart_ofName (Bool.eq_false_iff.mpr fun h => hne (Record.sameKey_iff.mp h))

/-- And an extension lies apart from an attribute. -/
theorem apart_uri_name (u : SchemaUri) (n : Name) : Apart (.ofName u.text) (.ofName n.text) :=
  apart_ofName (not_sameKey_uri_name u n)

/-! ## Each check is made as if it were the only one -/

/-- Checks an attribute of the base. -/
def validateOwn (s : Schema) (config : Presence) (r : Record) (issues : Issues) (a : Attribute) :
    Issues :=
  validateAttribute config a (Qualified.ofAttr s.uri a.name) (Record.getD r a.name.text)
    (.ofName a.name.text) issues

/-- The check of an attribute of the base keeps to its place. -/
theorem confined_validateOwn (s : Schema) (config : Presence) (r : Record) (a : Attribute) :
    Confined (.ofName a.name.text) (s.validateOwn config r · a) :=
  confined_validateAttribute config a _ _ List.prefix_rfl

/-- The attributes of the base are checked first, then the extensions. -/
theorem validateAttributes_eq_foldl (s : Schema) (r : Record) (config : Presence) :
    s.validateAttributes r config true =
      s.extensionParts.foldl (validatePart r config true)
        (s.attributes.toList.foldl (s.validateOwn config r) .empty) := by
  have hbase : validatePart r config true .empty s.basePart =
      s.attributes.toList.foldl (s.validateOwn config r) .empty := by
    simp only [validatePart, data_basePart, locationOf_base]
    rfl
  rw [validateAttributes, parts, List.foldl_cons, hbase]

/-- Those checks find issues at the attributes only. -/
theorem mem_places_own {l : Location}
    (hl : l ∈ (s.attributes.toList.foldl (s.validateOwn config r) .empty).places) :
    ∃ a ∈ s.attributes.toList, Location.ofName a.name.text <+: l :=
  (Issues.mem_places_foldl (fun a : Attribute => .ofName a.name.text)
    (fun a _ => s.confined_validateOwn config r a) hl).resolve_left (by simp)

/-- All checks of attributes find issues at an attribute of the base or in an extension. -/
theorem mem_places_validateAttributes {l : Location}
    (hl : l ∈ (s.validateAttributes r config true).places) :
    (∃ a ∈ s.attributes.toList, Location.ofName a.name.text <+: l) ∨
      ∃ p ∈ s.extensionParts, Location.ofName p.uri.text <+: l := by
  rw [validateAttributes_eq_foldl] at hl
  exact (Issues.mem_places_foldl (fun p : Part => .ofName p.uri.text)
    (fun p hp => confined_validatePart (isExtension_of_mem hp) r config true) hl).imp_left
    mem_places_own

/-- All issues lie at or below an attribute of the base or an extension. -/
theorem mem_places_validate {l : Location} (hl : l ∈ (s.validate r config).places) :
    (∃ a ∈ s.attributes.toList, Location.ofName a.name.text <+: l) ∨
      ∃ p ∈ s.extensionParts, Location.ofName p.uri.text <+: l := by
  rcases (s.confined_validateSchemas r).places hl with hl | hschemas
  · exact mem_places_validateAttributes hl
  · exact .inl ⟨CommonAttribute.schemas, s.schemas_mem, hschemas⟩

theorem not_ofName_prefix_root (key : String) : ¬Location.ofName key <+: [] := by
  simp [Location.ofName]

/-- Where nothing lies at the root, nothing lies above a key. -/
theorem openAbove_ofName {x : Issues} (h : [] ∉ x.places) (key : String) :
    x.OpenAbove (.ofName key) := by
  intro l hl habove
  rcases List.prefix_cons_iff.mp habove with rfl | ⟨rest, rfl, hrest⟩
  · exact absurd hl h
  · rw [List.prefix_nil.mp hrest, Location.ofName]

/-- After the base is checked, nothing halts above a key. -/
theorem openAbove_own (s : Schema) (r : Record) (config : Presence) (key : String) :
    (s.attributes.toList.foldl (s.validateOwn config r) .empty).OpenAbove (.ofName key) := by
  refine openAbove_ofName (fun hroot => ?_) key
  obtain ⟨a, -, h⟩ := mem_places_own hroot
  exact not_ofName_prefix_root _ h

/-- Nor does anything after all attributes are. -/
theorem openAbove_validateAttributes (s : Schema) (r : Record) (config : Presence) (key : String) :
    (s.validateAttributes r config true).OpenAbove (.ofName key) := by
  refine openAbove_ofName (fun hroot => ?_) key
  rcases mem_places_validateAttributes hroot with ⟨a, -, h⟩ | ⟨p, -, h⟩ <;>
    exact not_ofName_prefix_root _ h

/-- Of all checks of attributes, an attribute of the base gets the issues of its own. -/
theorem within_validateAttributes_name (ha : a ∈ s.attributes.toList) :
    (s.validateAttributes r config true).within (.ofName a.name.text) =
      s.validateOwn config r .empty a := by
  -- the extensions are checked after the base, and elsewhere
  rw [validateAttributes_eq_foldl,
    Issues.within_foldl_of_apart (fun p : Part => .ofName p.uri.text)
      (fun p hp => confined_validatePart (isExtension_of_mem hp) r config true)
      (fun p _ => apart_uri_name p.uri a.name),
    Issues.within_foldl_of_mem (fun a : Attribute => .ofName a.name.text)
      (fun a _ => s.confined_validateOwn config r a) s.pairwise_apart_attributes ha
      (Issues.openAbove_empty _),
    Issues.within_empty]

/-- An attribute of the base gets the issues that it gets alone. -/
theorem within_validate_attribute (ha : a ∈ s.attributes.toList) (hne : a.name.text ≠ "schemas") :
    (s.validate r config).within (.ofName a.name.text) = s.validateOwn config r .empty a := by
  have hapart : Apart (.ofName "schemas") (.ofName a.name.text) :=
    Location.apart_singleton fun h => hne (Step.name.inj h).symm
  rw [validate, (s.confined_validateSchemas r).outside _ hapart, within_validateAttributes_name ha]

/-- An extension gets the issues that it gets alone. -/
theorem within_validate_extension (hp : p ∈ s.extensionParts) :
    (s.validate r config).within (.ofName p.uri.text) = validatePart r config true .empty p := by
  have hown : ∀ a ∈ s.attributes.toList, Apart (.ofName a.name.text) (.ofName p.uri.text) :=
    fun a _ => (apart_uri_name p.uri a.name).symm
  -- the check of the list comes last, and elsewhere; the other extensions and the base lie
  -- elsewhere, too
  rw [validate,
    (s.confined_validateSchemas r).outside _ (hown CommonAttribute.schemas s.schemas_mem),
    validateAttributes_eq_foldl,
    Issues.within_foldl_of_mem (fun p : Part => .ofName p.uri.text)
      (fun p hp => confined_validatePart (isExtension_of_mem hp) r config true)
      s.pairwise_apart_extensions hp (s.openAbove_own r config _),
    Issues.within_foldl_of_apart (fun a : Attribute => .ofName a.name.text)
      (fun a _ => s.confined_validateOwn config r a) hown,
    Issues.within_empty]

/-- The list of schemas gets the issues that it gets alone, from the check of its value and then from
    the comparison with the data. -/
theorem within_validate_schemas (s : Schema) (r : Record) (config : Presence) :
    (s.validate r config).within (.ofName "schemas") =
      s.validateSchemas r (s.validateOwn config r .empty CommonAttribute.schemas) := by
  rw [validate, (s.confined_validateSchemas r).inside (s.openAbove_validateAttributes r config _)]
  exact congrArg (s.validateSchemas r) (within_validateAttributes_name s.schemas_mem)

/-! ## What each check reads -/

/-- The check of an attribute reads its own entry only. -/
theorem validateOwn_congr (h : Record.getD r a.name.text = Record.getD r' a.name.text)
    (issues : Issues) : s.validateOwn config r issues a = s.validateOwn config r' issues a := by
  rw [validateOwn, validateOwn, h]

/-- The data of an extension are its own entry. -/
theorem data_congr (hp : p ∈ s.extensionParts)
    (h : Record.getD r p.uri.text = Record.getD r' p.uri.text) : p.data r = p.data r' := by
  simp only [Part.data, isExtension_of_mem hp, if_true]
  unfold Record.getD at h
  -- an entry that is not there counts as null
  cases hget : Record.get? r p.uri.text with
  | none =>
    cases hget' : Record.get? r' p.uri.text with
    | none => rfl
    | some value =>
      rw [hget, hget'] at h
      obtain rfl : Value.null = value := h
      rfl
  | some value =>
    cases hget' : Record.get? r' p.uri.text with
    | none =>
      rw [hget, hget'] at h
      obtain rfl : value = Value.null := h
      rfl
    | some value' =>
      rw [hget, hget'] at h
      obtain rfl : value = value' := h
      rfl

/-- So its check reads that entry only. -/
theorem validatePart_congr (hp : p ∈ s.extensionParts)
    (h : Record.getD r p.uri.text = Record.getD r' p.uri.text) (complete : Bool) (issues : Issues) :
    validatePart r config complete issues p = validatePart r' config complete issues p := by
  unfold validatePart
  rw [data_congr hp h]

/-- The search for missing URIs reads which extensions have data. -/
theorem reportMissing_congr
    (h : ∀ p ∈ s.extensionParts,
      (Record.getD r p.uri.text).isPresent = (Record.getD r' p.uri.text).isPresent)
    (items : List Value) (issues : Issues) :
    s.reportMissing r items issues = s.reportMissing r' items issues :=
  List.foldl_ext _ _ _ fun issues p hp => by rw [h p hp]

/-- The check of the list of schemas looks at it only if it is a list; no entry counts as null. -/
theorem validateSchemas_eq_getD (s : Schema) (r : Record) (issues : Issues) :
    s.validateSchemas r issues = issues.unlessHalted (.ofName "schemas") fun issues =>
      match Record.getD r "schemas" with
      | .list items =>
        s.reportMissing r items <| reportUnknown s.uris
          (if declares items s.uri then issues
            else issues.addError (.missingBaseSchema s.uri.text) true (.ofName "schemas")) 0 items
      | _ => issues := by
  unfold validateSchemas Record.getD
  cases Record.get? r "schemas" with
  | none => rfl
  | some value => cases value <;> rfl

/-- That check reads the list, and which extensions have data. -/
theorem validateSchemas_congr (hlist : Record.getD r "schemas" = Record.getD r' "schemas")
    (h : ∀ p ∈ s.extensionParts,
      (Record.getD r p.uri.text).isPresent = (Record.getD r' p.uri.text).isPresent)
    (issues : Issues) : s.validateSchemas r issues = s.validateSchemas r' issues := by
  simp only [validateSchemas_eq_getD, hlist, reportMissing_congr h]

/-- The check of a resource reads the declared entries only. -/
theorem validate_congr
    (hown : ∀ a ∈ s.attributes.toList, Record.getD r a.name.text = Record.getD r' a.name.text)
    (hext : ∀ p ∈ s.extensionParts, Record.getD r p.uri.text = Record.getD r' p.uri.text) :
    s.validate r config = s.validate r' config := by
  have hattributes : s.attributes.toList.foldl (s.validateOwn config r) .empty =
      s.attributes.toList.foldl (s.validateOwn config r') .empty :=
    List.foldl_ext _ _ _ fun issues a ha => validateOwn_congr (hown a ha) issues
  have hextensions : ∀ issues, s.extensionParts.foldl (validatePart r config true) issues =
      s.extensionParts.foldl (validatePart r' config true) issues := fun issues =>
    List.foldl_ext _ _ _ fun issues p hp => validatePart_congr hp (hext p hp) true issues
  have hschemas := validateSchemas_congr (hown CommonAttribute.schemas s.schemas_mem)
    (fun p hp => congrArg Value.isPresent (hext p hp))
  rw [validate, validate, validateAttributes_eq_foldl, validateAttributes_eq_foldl, hattributes,
    hextensions, hschemas]

/-! ## Independence -/

/-- Two resources get the same issues wherever they agree, whatever else is in them. -/
structure Independent (s : Schema) (config : Presence) (r r' : Record) : Prop where
  /-- At an attribute of the base its value alone counts. -/
  attributes : ∀ a ∈ s.attributes.toList, a.name.text ≠ "schemas" →
    Record.getD r a.name.text = Record.getD r' a.name.text →
    (s.validate r config).AgreeAt (.ofName a.name.text) (s.validate r' config) (.ofName a.name.text)
  /-- At an extension what is stored under its URI alone counts. -/
  extensions : ∀ p ∈ s.extensionParts,
    Record.getD r p.uri.text = Record.getD r' p.uri.text →
    (s.validate r config).AgreeAt (.ofName p.uri.text) (s.validate r' config) (.ofName p.uri.text)
  /-- At the list of schemas the list counts, and which extensions have data. -/
  schemas : Record.getD r "schemas" = Record.getD r' "schemas" →
    (∀ p ∈ s.extensionParts,
      (Record.getD r p.uri.text).isPresent = (Record.getD r' p.uri.text).isPresent) →
    (s.validate r config).AgreeAt (.ofName "schemas") (s.validate r' config) (.ofName "schemas")
  /-- There are no issues elsewhere. -/
  places : ∀ l ∈ (s.validate r config).places,
    (∃ a ∈ s.attributes.toList, Location.ofName a.name.text <+: l) ∨
      ∃ p ∈ s.extensionParts, Location.ofName p.uri.text <+: l
  /-- Entries that are not declared count nowhere. -/
  undeclared :
    (∀ a ∈ s.attributes.toList, Record.getD r a.name.text = Record.getD r' a.name.text) →
    (∀ p ∈ s.extensionParts, Record.getD r p.uri.text = Record.getD r' p.uri.text) →
    s.validate r config = s.validate r' config

/-- The issues of one attribute never hide, add to or depend on another. -/
theorem independent_validate (s : Schema) (config : Presence) (r r' : Record) :
    s.Independent config r r' where
  attributes a ha hne h := .of_within <| by
    rw [within_validate_attribute ha hne, within_validate_attribute ha hne, validateOwn_congr h]
  extensions p hp h := .of_within <| by
    rw [within_validate_extension hp, within_validate_extension hp, validatePart_congr hp h]
  schemas hlist hpresent := .of_within <| by
    have hown : s.validateOwn config r .empty CommonAttribute.schemas =
        s.validateOwn config r' .empty CommonAttribute.schemas := validateOwn_congr hlist .empty
    rw [within_validate_schemas, within_validate_schemas, hown,
      validateSchemas_congr hlist hpresent]
  places _ hl := mem_places_validate hl
  undeclared := validate_congr

/-- A person whose name is a number. -/
def misnamedStaffData : Record :=
  [ ("schemas", .list [.string "urn:Person", .string "urn:Other"]),
    ("userName", .integer 7),
    ("urn:Staff", .complex [("badges", .list [.complex []])]) ]

/-- The same person with broken metadata and a shoe size. -/
def strayStaffData : Record :=
  [ ("shoeSize", .integer 44),
    ("URN:staff", .complex [("badges", .list [.complex []])]),
    ("meta", .boolean true),
    ("Schemas", .list [.string "urn:Person", .string "urn:Other"]),
    ("USERNAME", .integer 7) ]

/-- The metadata make a difference, but none to the issues of the name, of the badges and of the
    list of schemas. -/
theorem independent_validate_stray :
    staffSchema.validate misnamedStaffData staffSchema.creation ≠
        staffSchema.validate strayStaffData staffSchema.creation ∧
      ∀ key ∈ ["userName", "urn:Staff", "schemas"],
        (staffSchema.validate misnamedStaffData staffSchema.creation).within (.ofName key) ≠
            .empty ∧
          (staffSchema.validate misnamedStaffData staffSchema.creation).AgreeAt (.ofName key)
            (staffSchema.validate strayStaffData staffSchema.creation) (.ofName key) := by
  have hsame : ∀ key ∈ ["userName", "urn:Staff", "schemas"],
      Record.getD misnamedStaffData key = Record.getD strayStaffData key := by
    simp +decide [Record.getD, Record.get?, misnamedStaffData, strayStaffData]
  have hindependent := independent_validate staffSchema staffSchema.creation misnamedStaffData
    strayStaffData
  have hname := hindependent.attributes userName (by simp [staffSchema]) (by decide +kernel)
    (hsame "userName" (by simp))
  have hbadges := hindependent.extensions _ List.mem_cons_self (hsame "urn:Staff" (by simp))
  have hlist := hindependent.schemas (hsame "schemas" (by simp)) (by decide +kernel)
  refine ⟨by decide +kernel, fun key hkey => ?_⟩
  simp only [List.mem_cons, List.not_mem_nil, or_false] at hkey
  rcases hkey with rfl | rfl | rfl
  · exact ⟨by decide +kernel, hname⟩
  · exact ⟨by decide +kernel, hbadges⟩
  · exact ⟨by decide +kernel, hlist⟩

end Schema

end Scim
