import Scim.Proofs.Schema.Independence

/-!
  # Extensions that are left out

  A resource need not have data of an extension that is not required.  Such an extension is not passed
  over, though: without an entry, or with null for one, it is checked as if its data were empty, so
  that each of its attributes counts as missing.  A missing value is an error only where it is
  demanded (`Presence.Demands`): it is required, it is not for the service provider to give, and it
  was asked for by name or is always returned.

    * `validateAttribute_null`: the check of a missing value comes down to that question, whatever the
      kind of the attribute and whatever else was found;
    * `within_validate_omitted`: so one error is found for each demanded attribute, at its place, and
      nothing else at or below the URI.

  Hence the extension can be left out just where it demands nothing (`omission_reported`), which is so
  in any request that does not ask for attributes by name.
-/

namespace Scim

/-! ## What is demanded -/

/-- What has these characteristics must have a value. -/
structure Presence.Demands (config : Presence) (q : Qualified) (c : Characteristics) : Prop where
  required : c.required = true
  /-- The value is not for the service provider to give. -/
  supplied : c.isServiceIssued config.direction (config.ignoresIssuer q) = false
  requested : config.inclusivity q = some .included ∨
    config.direction = .response ∧ c.returned = .always

/-- What is demanded, as a conjunction. -/
theorem Presence.demands_iff {config : Presence} {q : Qualified} {c : Characteristics} :
    config.Demands q c ↔ c.required = true ∧
      c.isServiceIssued config.direction (config.ignoresIssuer q) = false ∧
        (config.inclusivity q = some .included ∨
          config.direction = .response ∧ c.returned = .always) :=
  ⟨fun h => ⟨h.required, h.supplied, h.requested⟩, fun ⟨hr, hs, hq⟩ => ⟨hr, hs, hq⟩⟩

instance (config : Presence) (q : Qualified) (c : Characteristics) : Decidable (config.Demands q c) :=
  decidable_of_iff _ Presence.demands_iff.symm

/-- A request that does not ask for attributes by name demands nothing. -/
theorem Presence.not_demands_of_request {config : Presence} (hrequest : config.direction = .request)
    (hlist : ∀ refs, config.selection ≠ .including refs) (q : Qualified) (c : Characteristics) :
    ¬config.Demands q c := by
  rintro ⟨-, -, hasked | ⟨hresponse, -⟩⟩
  · -- what is not listed is not asked for by name
    have hincludes : config.selection.includes? ≠ some true := by
      cases hselection : config.selection with
      | including refs => exact absurd hselection (hlist refs)
      | everything => simp [Selection.includes?]
      | excluding => simp [Selection.includes?]
    simp only [inclusivity, Selection.inclusivity, beq_iff_eq, hincludes, Bool.and_eq_true,
      false_and, if_false] at hasked
    split at hasked
    · cases hasked
    · cases hasked
  · rw [hrequest] at hresponse
    cases hresponse

/-- A missing value is an error just where it is demanded. -/
theorem Characteristics.validatePresence_null (c : Characteristics) (config : Presence)
    (q : Qualified) :
    c.validatePresence .null config.direction (config.inclusivity q) (config.ignoresIssuer q) =
      if config.Demands q c then .fatal .missingValue .root else .empty := by
  show (if (c.required && !c.isServiceIssued config.direction (config.ignoresIssuer q) &&
      (config.inclusivity q == some .included ||
        (config.direction == .response && c.returned == .always))) = true then _ else _) = _
  refine if_congr ?_ rfl rfl
  rw [Presence.demands_iff]
  simp only [Bool.and_eq_true, Bool.or_eq_true, Bool.not_eq_true', beq_iff_eq, and_assoc]

/-! ## Missing values side by side -/

namespace Issues

/-- An error that halts is merged as an error at the place. -/
theorem merge_fatal (x : Issues) (e : Error) (loc : Location) :
    x.merge (fatal e .root) loc = x.addError e false loc := by
  show Issues.mk (x.errors.add (loc ++ []) [e]) x.warnings (x.halts ++ [(loc ++ [], e.code)]) = _
  rw [List.append_nil]
  rfl

/-- Values are missing at some places, and that is all. -/
def missingAt (places : List Location) : Issues where
  errors := places.map fun l => (l, [.missingValue])
  warnings := []
  halts := places.map fun l => (l, Error.missingValue.code)

/-- One missing value more is found at a place of its own. -/
theorem addError_missingAt {places : List Location} {l : Location} (h : l ∉ places) :
    (missingAt places).addError .missingValue false l = missingAt (places ++ [l]) := by
  have hnew : l ∉ (places.map fun l => (l, [Error.missingValue])).map (·.1) := by simpa using h
  simp only [addError, missingAt, Filed.add_of_not_mem hnew, List.map_append, List.map_cons,
    List.map_nil, Bool.false_eq_true, if_false]

/-- So missing values are found one after the other. -/
theorem foldl_missingAt {before places : List Location} (h : (before ++ places).Nodup) :
    places.foldl (fun x l => x.addError .missingValue false l) (missingAt before) =
      missingAt (before ++ places) := by
  induction places generalizing before with
  | nil => rw [List.append_nil, List.foldl_nil]
  | cons l rest ih =>
    have hnext : (before ++ [l] ++ rest).Nodup := by simpa using h
    have hfresh : l ∉ before := by
      have hdisjoint := (List.nodup_append.mp h).2.2
      exact fun hl => hdisjoint l hl l List.mem_cons_self rfl
    rw [List.foldl_cons, addError_missingAt hfresh, ih hnext, List.append_assoc,
      List.singleton_append]

end Issues

/-! ## Checking what is missing -/

namespace Schema

variable {s : Schema} {p : Part} {r : Record}

/-- The check of a missing value is one question. -/
theorem validateAttribute_null (config : Presence) (a : Attribute) (q : Qualified) (loc : Location)
    (issues : Issues) : validateAttribute config a q .null loc issues =
      if config.Demands q a.toCharacteristics then issues.addError .missingValue false loc
      else issues := by
  -- nothing is done after the check of presence, for there is no value
  have hwait : ∀ x : Issues, x.unlessHalted loc (fun issues => issues) = x := by
    intro x
    show (if x.canProceedAt loc = true then x else x) = x
    exact ite_self x
  show (issues.merge _ loc).unlessHalted loc (fun issues => issues) = _
  rw [hwait, Characteristics.validatePresence_null]
  by_cases h : config.Demands q a.toCharacteristics
  · rw [if_pos h, if_pos h, Issues.merge_fatal]
  · rw [if_neg h, if_neg h, Issues.merge_empty]

/-- The attributes of a part that must have a value. -/
def Part.demanded (p : Part) (config : Presence) : List Attribute :=
  p.attributes.toList.filter fun a =>
    config.Demands (Qualified.ofAttr p.uri a.name) a.toCharacteristics

/-- The attributes of an extension lie at different places. -/
theorem nodup_locationOf (h : p.uri.isExtension = true) :
    (p.attributes.toList.map p.locationOf).Nodup := by
  refine List.pairwise_map.mpr ((List.pairwise_map.mp p.attributes.distinct).imp ?_)
  intro a b hne hloc
  rw [locationOf_extension h, locationOf_extension h] at hloc
  have htext : a.name.text = b.name.text := by simpa using hloc
  exact hne (congrArg Text.lower htext)

/-- Of an extension that is left out, the demanded attributes are missing, and nothing else is
    found. -/
theorem within_validate_omitted (hp : p ∈ s.extensionParts) (hoptional : p.required = false)
    (homitted : Record.getD r p.uri.text = .null) (config : Presence) :
    (s.validate r config).within (.ofName p.uri.text) =
      .missingAt ((p.demanded config).map p.locationOf) := by
  have hdata : p.data r = .ok [] := (data_eq_ok_iff hp).mpr (.inr ⟨homitted, rfl⟩)
  -- no data of the extension is required, so its attributes are checked against an empty record
  have hcheck : validatePart r config true .empty p =
      p.attributes.toList.foldl (fun issues a =>
        if config.Demands (Qualified.ofAttr p.uri a.name) a.toCharacteristics then
          issues.addError .missingValue false (p.locationOf a)
        else issues) .empty := by
    simp only [validatePart, hdata, hoptional, Bool.and_false, Bool.false_and, Bool.false_eq_true,
      if_false]
    exact List.foldl_ext _ _ _ fun issues a _ => validateAttribute_null config a _ _ issues
  have hnodup : ([] ++ (p.demanded config).map p.locationOf).Nodup :=
    (nodup_locationOf (isExtension_of_mem hp)).sublist (List.filter_sublist.map p.locationOf)
  calc (s.validate r config).within (.ofName p.uri.text)
      = validatePart r config true .empty p := within_validate_extension hp
    _ = (p.demanded config).foldl (fun issues a =>
          issues.addError .missingValue false (p.locationOf a)) .empty := by
        rw [hcheck, Part.demanded, List.foldl_filter]
        simp only [decide_eq_true_eq]
    _ = ((p.demanded config).map p.locationOf).foldl
          (fun x l => x.addError .missingValue false l) (.missingAt []) := by
        rw [List.foldl_map]
        rfl
    _ = .missingAt ((p.demanded config).map p.locationOf) := Issues.foldl_missingAt hnodup

/-! ## Leaving out -/

/-- What is found at or below the URI of an extension that is left out. -/
structure OmissionReported (s : Schema) (p : Part) (r : Record) (config : Presence) : Prop where
  /-- Just the demanded attributes are missing, each at its place. -/
  found : (s.validate r config).within (.ofName p.uri.text) =
    .missingAt ((p.demanded config).map fun a => [.name p.uri.text, .name a.name.text])
  /-- There are no errors just where nothing is demanded. -/
  free : (∀ l ∈ (s.validate r config).errors.map (·.1), ¬Location.ofName p.uri.text <+: l) ↔
    ∀ a ∈ p.attributes.toList, ¬config.Demands (Qualified.ofAttr p.uri a.name) a.toCharacteristics
  /-- So it is in a request that does not ask for attributes by name. -/
  request : config.direction = .request → (∀ refs, config.selection ≠ .including refs) →
    ∀ l ∈ (s.validate r config).errors.map (·.1), ¬Location.ofName p.uri.text <+: l

/-- There are no errors at or below a place just if none lies there. -/
theorem errors_within_eq_nil_iff {x : Issues} {loc : Location} :
    (x.within loc).errors = [] ↔ ∀ l ∈ x.errors.map (·.1), ¬loc <+: l := by
  show x.errors.filter _ = [] ↔ _
  simp only [List.filter_eq_nil_iff, Location.startsWith_iff, List.mem_map, forall_exists_index,
    and_imp, forall_apply_eq_imp_iff₂]

/-- An extension that is not required may be left out as far as none of its attributes is
    demanded. -/
theorem omission_reported (hp : p ∈ s.extensionParts) (hoptional : p.required = false)
    (homitted : Record.getD r p.uri.text = .null) (config : Presence) :
    OmissionReported s p r config := by
  have hfound := within_validate_omitted hp hoptional homitted config
  have hplaces : (p.demanded config).map p.locationOf =
      (p.demanded config).map fun a => [.name p.uri.text, .name a.name.text] :=
    List.map_congr_left fun a _ => locationOf_extension (isExtension_of_mem hp) a
  have hfree : (∀ l ∈ (s.validate r config).errors.map (·.1), ¬Location.ofName p.uri.text <+: l) ↔
      ∀ a ∈ p.attributes.toList,
        ¬config.Demands (Qualified.ofAttr p.uri a.name) a.toCharacteristics := by
    rw [← errors_within_eq_nil_iff, hfound]
    simp [Issues.missingAt, Part.demanded, List.filter_eq_nil_iff]
  exact ⟨hplaces ▸ hfound, hfree, fun hrequest hlist =>
    hfree.mpr fun a _ => Presence.not_demands_of_request hrequest hlist _ _⟩

/-- Persons, some of them members of staff. -/
def visitorSchema : Schema :=
  { staffSchema with extensions := [⟨staffExtension, false⟩] }

/-- A person who is no member of staff. -/
def visitorData : Record :=
  [("schemas", .list [.string "urn:Person"]), ("userName", .string "sam")]

theorem getD_visitorData : Record.getD visitorData staffExtension.uri.text = .null := by
  have hnone : (Record.get? visitorData staffExtension.uri.text).isNone = true := by decide +kernel
  rw [Record.getD, Option.isNone_iff_eq_none.mp hnone, Option.getD_none]

/-- A visitor can not be created without a badge, though the extension for staff is not required:
    badges are, and a request for everything required asks for them by name. -/
theorem omission_refused_visitor :
    ∃ p ∈ visitorSchema.extensionParts, p.required = false ∧
      Record.getD visitorData p.uri.text = .null ∧
        ∃ l ∈ (visitorSchema.validate visitorData visitorSchema.creation).errors.map (·.1),
          Location.ofName p.uri.text <+: l :=
  ⟨_, List.mem_cons_self, rfl, getD_visitorData, [.name "urn:Staff", .name "badges"],
    by decide +kernel, by decide +kernel⟩

/-- Without asking for badges by name the visitor is no problem, asking for them makes one. -/
theorem omission_reported_visitor :
    ∃ p ∈ visitorSchema.extensionParts, p.required = false ∧
      Record.getD visitorData p.uri.text = .null ∧
        OmissionReported visitorSchema p visitorData .request ∧
        OmissionReported visitorSchema p visitorData visitorSchema.creation :=
  ⟨_, List.mem_cons_self, rfl, getD_visitorData,
    omission_reported List.mem_cons_self rfl getD_visitorData .request,
    omission_reported List.mem_cons_self rfl getD_visitorData visitorSchema.creation⟩

end Schema

end Scim
