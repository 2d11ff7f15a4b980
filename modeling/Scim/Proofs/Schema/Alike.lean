import Scim.Proofs.Filter.Alike
import Scim.Proofs.Schema.Creation
import Scim.Proofs.Schema.Projection
import Scim.Schema.Conversion

/-!
  # Resources that differ in the order and casing of keys only

  Nothing in a service depends on the order in which a resource gives its keys, or on their casing.
  The schema says what is looked up and in which order, so alike resources have the same issues and
  match the same filters, and what is returned or read of them is alike
  (`Schema.alike_indifferent`).  An attribute's own validators and converters, and operators that are
  not of the protocol, must make no difference between alike values themselves.
-/

namespace Scim

namespace Schema

/-- Order and casing of keys make no difference to the functions of the attributes. -/
def Blind (s : Schema) : Prop := ∀ p ∈ s.parts, ∀ a ∈ p.attributes.toList, Attribute.Blind a

variable {s : Schema} {p : Part} {r r' : Record}

/-! ## Checks -/

/-- Alike lists have alike items at the same places. -/
theorem forall₂_zipIdx_map {items items' : List Value} (h : List.Forall₂ Value.Alike items items')
    (loc : Location) (start : Nat) :
    List.Forall₂ (fun e e' => e.1 = e'.1 ∧ e.2.Alike e'.2)
      ((items.zipIdx start).map fun (item, i) => (loc.childIndex i, item))
      ((items'.zipIdx start).map fun (item, i) => (loc.childIndex i, item)) := by
  induction h generalizing start with
  | nil => exact .nil
  | cons hitem _ ih => exact .cons ⟨rfl, hitem⟩ (ih (start + 1))

/-- Alike values have alike elements at the same places. -/
theorem forall₂_elementsOf (a : Attribute) {v v' : Value} (h : v.Alike v') (loc : Location) :
    List.Forall₂ (fun e e' => e.1 = e'.1 ∧ e.2.Alike e'.2) (elementsOf a v loc)
      (elementsOf a v' loc) := by
  cases h with
  | list h =>
    simp only [elementsOf]
    split
    · exact forall₂_zipIdx_map h loc 0
    · exact .cons ⟨rfl, .list h⟩ .nil
  | complex h => exact .cons ⟨rfl, h⟩ .nil
  | _ => exact .cons ⟨rfl, .scalar rfl rfl⟩ .nil

/-- Alike elements have the same issues. -/
theorem validateElement_eq (config : Presence) (q : Qualified) (subs : List SubAttribute)
    (issues : Issues) {loc : Location} {v v' : Value} (h : v.Alike v') :
    validateElement config q subs issues (loc, v) = validateElement config q subs issues (loc, v') := by
  unfold validateElement
  -- both elements are records, or none is
  rcases h.complex?.none_or_some with ⟨hc, hc'⟩ | ⟨fields, fields', hc, hc', hfields⟩ <;>
    simp only [hc, hc']
  congr 1
  funext issues
  refine List.foldl_ext _ _ _ fun issues sub _ => ?_
  have hpresence := sub.validatePresence_blind config.direction
    (config.inclusivity (q.child sub.name)) (config.ignoresIssuer (q.child sub.name))
    (hfields.getD sub.name.text)
  simp only [hpresence]

/-- And so have all elements of alike values. -/
theorem validateElements_eq (config : Presence) (a : Attribute) (q : Qualified) {v v' : Value}
    (h : v.Alike v') (loc : Location) (issues : Issues) :
    validateElements config a q v loc issues = validateElements config a q v' loc issues := by
  unfold validateElements
  cases Attribute.subs? a with
  | none => rfl
  | some subs =>
    have helements := forall₂_elementsOf a h loc
    simp only
    -- element by element, each of them at its place
    generalize elementsOf a v loc = elements, elementsOf a v' loc = elements' at helements
    induction helements generalizing issues with
    | nil => rfl
    | @cons e e' _ _ he _ ih =>
      obtain ⟨loc, v⟩ := e
      obtain ⟨loc', v'⟩ := e'
      obtain ⟨rfl, he⟩ := he
      rw [List.foldl_cons, List.foldl_cons, validateElement_eq config q subs.toList issues he, ih]

/-- Alike values of an attribute have the same issues. -/
theorem validateAttribute_eq (config : Presence) {a : Attribute} (ha : Attribute.Blind a)
    (q : Qualified) {v v' : Value} (h : v.Alike v') (loc : Location) (issues : Issues) :
    validateAttribute config a q v loc issues = validateAttribute config a q v' loc issues := by
  unfold validateAttribute
  have hpresence := a.validatePresence_blind config.direction (config.inclusivity q)
    (config.ignoresIssuer q) h
  have helements : validateElements config a q v loc = validateElements config a q v' loc :=
    funext fun issues => validateElements_eq config a q h loc issues
  simp only [hpresence, h.isNull_eq, Attribute.validate_blind ha h, helements]

/-- Data of a part is alike, or what stands in its place is of the same type. -/
theorem Part.data_alike (h : r.Alike r') :
    (∃ fields fields', p.data r = .ok fields ∧ p.data r' = .ok fields' ∧ fields.Alike fields') ∨
      ∃ other other', p.data r = .error other ∧ p.data r' = .error other' ∧
        other.typeName = other'.typeName := by
  unfold data
  split
  · rcases (h.get? p.uri.text).none_or_some with ⟨hr, hr'⟩ | ⟨v, v', hr, hr', hv⟩ <;>
      simp only [hr, hr']
    · exact .inl ⟨[], [], rfl, rfl, Record.alike_nil⟩
    · cases hv with
      | null => exact .inl ⟨[], [], rfl, rfl, Record.alike_nil⟩
      | complex h => exact .inl ⟨_, _, rfl, rfl, h⟩
      | _ => exact .inr ⟨_, _, rfl, rfl, rfl⟩
  · exact .inl ⟨r, r', rfl, rfl, h⟩

/-- So have the data of a part in alike resources. -/
theorem validatePart_eq (hp : ∀ a ∈ p.attributes.toList, Attribute.Blind a) (h : r.Alike r')
    (config : Presence) (complete : Bool) (issues : Issues) :
    validatePart r config complete issues p = validatePart r' config complete issues p := by
  unfold validatePart
  -- both parts have data, or something of one type stands in the way of both
  rcases Part.data_alike (p := p) h with
    ⟨fields, fields', hdata, hdata', hfields⟩ | ⟨other, other', hdata, hdata', htype⟩ <;>
    simp only [hdata, hdata']
  · rw [hfields.isEmpty_eq]
    split
    · rfl
    · exact List.foldl_ext _ _ _ fun issues a ha =>
        validateAttribute_eq config (hp a ha) _ (hfields.getD a.name.text) _ issues
  · rw [htype]

theorem validateAttributes_eq (hs : s.Blind) (h : r.Alike r') (config : Presence) (complete : Bool) :
    s.validateAttributes r config complete = s.validateAttributes r' config complete :=
  List.foldl_ext _ _ _ fun issues p hp => validatePart_eq (hs p hp) h config complete issues

/-- Alike lists name the same URIs. -/
theorem declares_eq {items items' : List Value} (h : List.Forall₂ Value.Alike items items')
    (uri : SchemaUri) : declares items uri = declares items' uri := by
  refine any_eq_of_forall₂ h fun v v' hv => ?_
  cases hv <;> rfl

/-- The same URIs in them are unknown. -/
theorem reportUnknown_eq (known : List SchemaUri) {items items' : List Value}
    (h : List.Forall₂ Value.Alike items items') (issues : Issues) (index : Nat) :
    reportUnknown known issues index items = reportUnknown known issues index items' := by
  induction h generalizing issues index with
  | nil => rfl
  | @cons v v' _ _ hv _ ih =>
    cases hv <;> simp only [reportUnknown, ih]

/-- And those of the same extensions are missing. -/
theorem reportMissing_eq (h : r.Alike r') {items items' : List Value}
    (hitems : List.Forall₂ Value.Alike items items') (issues : Issues) :
    s.reportMissing r items issues = s.reportMissing r' items' issues := by
  refine List.foldl_ext _ _ _ fun issues p _ => ?_
  rw [(h.getD p.uri.text).isPresent_eq, declares_eq hitems]

/-- So alike resources have the same issues with their lists of schemas. -/
theorem validateSchemas_eq (h : r.Alike r') (issues : Issues) :
    s.validateSchemas r issues = s.validateSchemas r' issues := by
  unfold validateSchemas
  rcases (h.get? "schemas").none_or_some with ⟨hr, hr'⟩ | ⟨v, v', hr, hr', hv⟩ <;>
    simp only [hr, hr']
  -- what is no list is not looked at
  cases hv with
  | list hitems =>
    simp only [declares_eq hitems, reportUnknown_eq s.uris hitems, reportMissing_eq h hitems]
  | _ => rfl

/-- Alike resources have the same issues. -/
theorem validate_eq (hs : s.Blind) (h : r.Alike r') (config : Presence) :
    s.validate r config = s.validate r' config := by
  unfold validate
  rw [validateAttributes_eq hs h config true, validateSchemas_eq h]

/-! ## Projection -/

section Projection

variable (config : Presence) (q : Qualified)

/-- Order and casing of keys make no difference to what is kept of an element. -/
theorem projectElement_alike (subs : AttributeSet SimpleKind) {fields fields' : Record}
    (h : fields.Alike fields') :
    Record.Alike (projectElement config q subs.toList fields)
      (projectElement config q subs.toList fields') := by
  -- what is kept lies under declared names, and those differ
  refine subs.filterMap_alike (fun sub _ entry hentry => ?_) fun sub _ => ?_
  · split at hentry
    · obtain ⟨value, -, rfl⟩ := Option.map_eq_some_iff.mp hentry
      rfl
    · simp at hentry
  · split
    · rcases (h.get? sub.name.text).none_or_some with ⟨hr, hr'⟩ | ⟨v, v', hr, hr', hv⟩ <;>
        rw [hr, hr']
      · exact .none
      · exact .some ⟨rfl, hv⟩
    · exact .none

/-- What is kept of alike items is alike. -/
theorem forall₂_keptItems (subs : AttributeSet SimpleKind) {items items' : List Value}
    (h : List.Forall₂ Value.Alike items items') :
    let keep := fun item : Value =>
      match item with
      | .complex fields => .complex (projectElement config q subs.toList fields)
      | other => other
    List.Forall₂ Value.Alike ((items.map keep).filter Value.isPresent)
      ((items'.map keep).filter Value.isPresent) := by
  refine List.rel_filter (fun _ _ hitem => Bool.eq_iff_iff.mp hitem.isPresent_eq)
    (List.rel_map ?_ h)
  intro item item' hitem
  cases hitem with
  | list hitems => exact .list hitems
  | complex h => exact projectElement_alike config q subs h
  | _ => exact .scalar rfl rfl

/-- A list is kept of both or of none. -/
theorem rel_keptList {kept kept' : List Value} (h : List.Forall₂ Value.Alike kept kept') :
    Option.Rel Value.Alike (if kept.isEmpty then none else some (.list kept))
      (if kept'.isEmpty then none else some (.list kept')) := by
  cases h with
  | nil => exact .none
  | cons hitem hrest => exact .some (.list (.cons hitem hrest))

/-- What is kept of the elements of alike values is alike, or nothing is kept of either. -/
theorem rel_projectElements (subs : AttributeSet SimpleKind) {v v' : Value} (h : v.Alike v') :
    Option.Rel Value.Alike (projectElements config q subs.toList v)
      (projectElements config q subs.toList v') := by
  cases h with
  | list h => exact rel_keptList (forall₂_keptItems config q subs h)
  | complex h =>
    have hkept := projectElement_alike config q subs h
    simp only [projectElements, hkept.isEmpty_eq]
    split
    · exact .none
    · exact .some hkept
  | _ => exact .some (.scalar rfl rfl)

/-- And so it is with the value of an attribute. -/
theorem rel_projectAttribute (a : Attribute) {v v' : Value} (h : v.Alike v') :
    Option.Rel Value.Alike (projectAttribute config a q v) (projectAttribute config a q v') := by
  -- whether a value is returned does not depend on it
  unfold projectAttribute
  split
  · exact .none
  · split
    · exact .some h
    · split
      · exact .some h
      · exact rel_projectElements config q _ h

/-- What is kept of the data of a part. -/
theorem Part.project_alike (p : Part) {fields fields' : Record} (h : fields.Alike fields') :
    Record.Alike (p.project config fields) (p.project config fields') := by
  refine p.attributes.filterMap_alike (fun a _ entry hentry => ?_) fun a _ => ?_
  · simp only [Option.bind_eq_bind, Option.mem_def, Option.bind_eq_some_iff, Option.pure_def,
      Option.some.injEq] at hentry
    obtain ⟨value, -, kept, -, rfl⟩ := hentry
    rfl
  · rcases (h.get? a.name.text).none_or_some with ⟨hr, hr'⟩ | ⟨v, v', hr, hr', hv⟩ <;>
      simp only [hr, hr', Option.bind_eq_bind, Option.bind_none, Option.bind_some]
    · exact .none
    · rcases (rel_projectAttribute config (Qualified.ofAttr p.uri a.name) a hv).none_or_some with
        ⟨hk, hk'⟩ | ⟨kept, kept', hk, hk', hkept⟩ <;>
        simp only [hk, hk', Option.bind_none, Option.bind_some]
      · exact .none
      · exact .some ⟨rfl, hkept⟩

end Projection

/-! ## Resources put together -/

/-- Two versions of the entry that an extension has, if it has one. -/
def Part.EntriesAlike (p : Part) (entries entries' : Record) : Prop :=
  entries = [] ∧ entries' = [] ∨
    ∃ fields fields', entries = [(p.uri.text, .complex fields)] ∧
      entries' = [(p.uri.text, .complex fields')] ∧ Record.Alike fields fields'

/-- Extensions have alike entries, one after the other. -/
theorem forall₂_flatMap {f f' : Part → Record} {parts : List Part}
    (h : ∀ p ∈ parts, p.EntriesAlike (f p) (f' p)) :
    List.Forall₂ Record.EntryAlike (parts.flatMap f) (parts.flatMap f') := by
  induction parts with
  | nil => exact .nil
  | cons p parts ih =>
    have hrest := ih fun p hp => h p (List.mem_cons_of_mem _ hp)
    rw [List.flatMap_cons, List.flatMap_cons]
    rcases h p List.mem_cons_self with ⟨hp, hp'⟩ | ⟨fields, fields', hp, hp', hfields⟩ <;>
      rw [hp, hp']
    · exact hrest
    · exact .cons ⟨rfl, hfields⟩ hrest

/-- Attributes of the base under their names, and data of the extensions under their URIs. -/
theorem alike_append (s : Schema) {base base' : Record} (hbase : base.Alike base')
    (hnames : ∀ entry ∈ base, ∃ name : Name, entry.1 = name.text) {f f' : Part → Record}
    (h : ∀ p ∈ s.extensionParts, p.EntriesAlike (f p) (f' p)) :
    Record.Alike (base ++ s.extensionParts.flatMap f) (base' ++ s.extensionParts.flatMap f') := by
  obtain ⟨hdistinct, others, hentries, horder⟩ := Record.alike_iff.mp hbase
  refine Record.alike_iff.mpr ⟨?_, others ++ s.extensionParts.flatMap f',
    List.rel_append hentries (forall₂_flatMap h), horder.append_right _⟩
  -- names and URIs are different keys
  refine Assembles.distinct ⟨hnames, fun p hp => ?_⟩ hdistinct
  exact (h p hp).imp (·.1) fun ⟨fields, _, hfields, _⟩ => ⟨.complex fields, hfields⟩

/-- What an extension becomes, if there is a record of its data. -/
theorem entriesAlike_extension (p : Part) (h : r.Alike r') {keep : Record → Record}
    (hkeep : ∀ {fields fields' : Record}, Record.Alike fields fields' →
      p.EntriesAlike (keep fields) (keep fields')) :
    p.EntriesAlike
      (match r.get? p.uri.text with
        | some (.complex fields) => keep fields
        | _ => [])
      (match r'.get? p.uri.text with
        | some (.complex fields) => keep fields
        | _ => []) := by
  rcases (h.get? p.uri.text).none_or_some with ⟨hr, hr'⟩ | ⟨v, v', hr, hr', hv⟩ <;>
    simp only [hr, hr']
  · exact .inl ⟨rfl, rfl⟩
  · cases hv with
    | complex h => exact hkeep h
    | _ => exact .inl ⟨rfl, rfl⟩

/-- What is returned of alike resources is alike. -/
theorem project_alike (h : r.Alike r') (config : Presence) :
    Record.Alike (s.project r config) (s.project r' config) := by
  refine alike_append s (s.basePart.project_alike config h) (fun entry hentry => ?_) fun p _ => ?_
  · exact Part.key_project hentry
  · refine entriesAlike_extension p h fun {fields fields'} hfields => ?_
    have hkept := p.project_alike config hfields
    -- an extension is dropped if nothing is left of it
    simp only [hkept.isEmpty_eq]
    split
    · exact .inl ⟨rfl, rfl⟩
    · exact .inr ⟨_, _, rfl, rfl, hkept⟩

/-- Alike resources are converted to alike resources. -/
theorem convert_alike {f : Attribute → Value → Value}
    (hf : ∀ p ∈ s.parts, ∀ a ∈ p.attributes.toList, Value.KeepsAlike (f a)) (h : r.Alike r') :
    Record.Alike (s.convert f r) (s.convert f r') := by
  -- values lie under declared names, as in a projection
  have hparts : ∀ p ∈ s.parts, ∀ {fields fields' : Record}, Record.Alike fields fields' →
      Record.Alike (AttributeOf.convertRecord p.attributes.toList f fields)
        (AttributeOf.convertRecord p.attributes.toList f fields') :=
    fun p hp _ _ hfields => AttributeOf.convertRecord_alike (hf p hp) hfields
  refine alike_append s (hparts s.basePart List.mem_cons_self h) (fun entry hentry => ?_)
    fun p hp => ?_
  · obtain ⟨a, -, hmade⟩ := List.mem_filterMap.mp hentry
    obtain ⟨value, -, rfl⟩ := Option.map_eq_some_iff.mp hmade
    exact ⟨a.name, rfl⟩
  · exact entriesAlike_extension p h fun hfields =>
      .inr ⟨_, _, rfl, rfl, hparts p (mem_parts_of_mem_extensionParts hp) hfields⟩

/-- Alike resources are read as alike resources. -/
theorem deserialize_alike (hs : s.Blind) (h : r.Alike r') :
    Record.Alike (s.deserialize r) (s.deserialize r') :=
  convert_alike (fun p hp a ha => Attribute.deserialize_keepsAlike (hs p hp a ha)) h

/-! ## All of them -/

/-- Order and casing of keys never matter: alike resources have the same issues and match the same
    filters, and what is returned or read of them is alike. -/
theorem alike_indifferent (hs : s.Blind) {f : Filter} (hf : f.Blind) (h : r.Alike r')
    (config : Presence) :
    s.validate r config = s.validate r' config ∧ f.evaluate r s = f.evaluate r' s ∧
      Record.Alike (s.project r config) (s.project r' config) ∧
      Record.Alike (s.deserialize r) (s.deserialize r') :=
  ⟨validate_eq hs h config, Filter.evaluate_eq hf h s, project_alike h config,
    deserialize_alike hs h⟩

/-- A member of staff, written down the other way round and in other casings. -/
def rewrittenStaffData : Record :=
  [ ("URN:staff", .complex [("Badges", .list [.complex [("NUMBER", .string "7")]])]),
    ("USERNAME", .string "kim"),
    ("Schemas", .list [.string "URN:person", .string "urn:Staff"]) ]

/-- The members of staff with a badge of number 7. -/
def badgeFilter : Filter :=
  .complex (.plain ⟨badges, none⟩)
    (.leaf ⟨.plain ⟨badgeNumber, none⟩, .binary .equal (.string "7")⟩)

/-- Both ways of writing the person down are alike. -/
theorem alike_staffData : staffData.Alike rewrittenStaffData := by
  have hnumber : Value.Alike (.complex [("number", .string "7")])
      (.complex [("NUMBER", .string "7")]) :=
    Record.alike_of_forall₂ (by decide +kernel)
      (.cons ⟨by decide +kernel, .scalar rfl rfl⟩ .nil)
  have hbadges : Value.Alike (.complex [("badges", .list [.complex [("number", .string "7")]])])
      (.complex [("Badges", .list [.complex [("NUMBER", .string "7")]])]) :=
    Record.alike_of_forall₂ (by decide +kernel)
      (.cons ⟨by decide +kernel, .list (.cons hnumber .nil)⟩ .nil)
  have hschemas : Value.Alike (.list [.string "URN:person", .string "urn:Staff"])
      (.list [.string "URN:person", .string "urn:Staff"]) :=
    .list (.cons (.scalar rfl rfl) (.cons (.scalar rfl rfl) .nil))
  refine Record.alike_iff.mpr ⟨by decide +kernel, rewrittenStaffData.reverse, ?_,
    List.reverse_perm rewrittenStaffData⟩
  exact .cons ⟨by decide +kernel, hschemas⟩ (.cons ⟨by decide +kernel, .scalar rfl rfl⟩
    (.cons ⟨by decide +kernel, hbadges⟩ .nil))

/-- The other way of writing makes no difference to a request that creates the person. -/
theorem alike_indifferent_staffData :
    staffSchema.Blind ∧ badgeFilter.Blind ∧ staffData.Alike rewrittenStaffData ∧
      staffSchema.validate staffData staffSchema.creation =
        staffSchema.validate rewrittenStaffData staffSchema.creation ∧
      badgeFilter.evaluate staffData staffSchema =
        badgeFilter.evaluate rewrittenStaffData staffSchema ∧
      Record.Alike (staffSchema.project staffData staffSchema.creation)
        (staffSchema.project rewrittenStaffData staffSchema.creation) ∧
      Record.Alike (staffSchema.deserialize staffData)
        (staffSchema.deserialize rewrittenStaffData) := by
  have hschema : staffSchema.Blind := by
    have hown : ∀ p ∈ staffSchema.parts, ∀ a ∈ p.attributes.toList,
        (a.validators = [] ∧ a.deserializer = none) ∧
          ∀ subs ∈ Attribute.subs? a, ∀ sub ∈ subs.toList,
            sub.validators = [] ∧ sub.deserializer = none := by
      decide +kernel
    have hblind : ∀ {c : Characteristics}, c.validators = [] ∧ c.deserializer = none → c.Blind :=
      fun h => ⟨by simp [h.1], by simp [h.2]⟩
    intro p hp a ha
    have ⟨hattr, hsubs⟩ := hown p hp a ha
    exact ⟨hblind hattr, fun subs hmem sub hsub => hblind (hsubs subs hmem sub hsub)⟩
  have hfilter : badgeFilter.Blind := by
    intro leaf hleaf
    obtain rfl := List.mem_singleton.mp hleaf
    exact .inl (by simp [Comparison.IsStandard, BinaryOperator.standard])
  exact ⟨hschema, hfilter, alike_staffData,
    alike_indifferent hschema hfilter alike_staffData staffSchema.creation⟩

end Schema

end Scim
