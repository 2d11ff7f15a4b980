import Scim.Proofs.Attribute.Validation
import Scim.Proofs.Schema.Parts

/-!
  # What a resource must be to pass

  Attributes are checked in the order of the schema, each in three steps, and a step is left out
  where an earlier one halted.  What is found wrong is said here without any order: a value `Passes`
  if it is right, if its presence is admitted, and if that of each sub-attribute is admitted in every
  element.

    * Each check `Reports` what it is made for: the presence of a value, the value itself and the
      presence of the sub-attributes, then the attributes of a part and all parts.
    * What is left out where something halts is never missed, since nothing halts without an error.
    * Whatever was asked for, in whatever direction: which values are admitted is left to
      `Presence.Admits`.
-/

namespace Scim

/-! ## Values -/

/-- It is right that a value is there, or that it is not. -/
def Presence.Admits (config : Presence) (q : Qualified) (c : Characteristics) (value : Value) : Prop :=
  (c.validatePresence value config.direction (config.inclusivity q)
    (config.ignoresIssuer q)).hasErrors = false

/-- What the value of an attribute must be. -/
structure Presence.Passes (config : Presence) (q : Qualified) (a : Attribute) (value : Value) :
    Prop where
  valid : (Attribute.validate a value).hasErrors = false
  admitted : config.Admits q a.toCharacteristics value
  /-- Sub-attributes are admitted in every element. -/
  subs : ∀ subs ∈ Attribute.subs? a, ∀ sub ∈ subs.toList, ∀ fields ∈ value.records,
    config.Admits (q.child sub.name) sub.toCharacteristics (Record.getD fields sub.name.text)

/-- A presence check halts only with an error. -/
theorem Characteristics.earnest_validatePresence (c : Characteristics) (value : Value)
    (direction : Direction) (inclusivity : Option Inclusivity) (ignoreIssuer : Bool) :
    (c.validatePresence value direction inclusivity ignoreIssuer).Earnest := by
  unfold validatePresence
  dsimp only
  split
  · split
    · exact Issues.earnest_mild _ _
    · split
      · exact Issues.earnest_fatal _ _
      · exact Issues.earnest_empty
  · split
    · exact Issues.earnest_fatal _ _
    · exact Issues.earnest_empty

namespace Schema

open Issues

/-- What further validators of the attributes find halts nothing without an error. -/
def Earnest (s : Schema) : Prop := ∀ p ∈ s.parts, ∀ a ∈ p.attributes.toList, Attribute.Earnest a

/-- The further validators of all attributes collect their issues step by step. -/
def Stepwise (s : Schema) : Prop := ∀ p ∈ s.parts, ∀ a ∈ p.attributes.toList, Attribute.Stepwise a

/-- What is collected step by step halts nothing without an error. -/
theorem Stepwise.earnest {s : Schema} (h : s.Stepwise) : s.Earnest :=
  fun p hp a ha => (h p hp a ha).earnest

/-- No attribute has validators beside its declaration. -/
def Plain (s : Schema) : Prop := ∀ p ∈ s.parts, ∀ a ∈ p.attributes.toList, Attribute.Plain a

instance (s : Schema) : Decidable s.Plain := by
  unfold Plain
  infer_instance

/-- Where there are no further validators, there is nothing that halts. -/
theorem Plain.earnest {s : Schema} (h : s.Plain) : s.Earnest := fun p hp a ha => (h p hp a ha).earnest

/-- Attributes and sub-attributes that a path finds are attributes of the schema. -/
theorem Earnest.attribute? {s : Schema} (h : s.Earnest) {q : Qualified} {target : Attribute}
    (htarget : s.attribute? q = some target) : Attribute.Earnest target := by
  obtain ⟨p, hp, parent, hparent, -, ⟨-, rfl⟩ | ⟨-, subs, hsubs, sub, hsub, rfl⟩⟩ :=
    attribute?_eq_some htarget
  · exact h p hp _ hparent
  · exact ⟨(h p hp parent hparent).subs subs hsubs sub hsub,
      fun _ hnone => by simp [SubAttribute.lift, Attribute.subs?] at hnone⟩

variable {s : Schema} {config : Presence} {q : Qualified} {a : Attribute} {value : Value}

/-! ## Attributes -/

/-- The presence check of one attribute, filed below a place. -/
theorem reports_presence (config : Presence) (q : Qualified) (c : Characteristics) (value : Value)
    (loc : Location) :
    Reports (·.merge (c.validatePresence value config.direction (config.inclusivity q)
      (config.ignoresIssuer q)) loc) (config.Admits q c value) :=
  Reports.merge (c.earnest_validatePresence value config.direction (config.inclusivity q)
    (config.ignoresIssuer q)) loc

/-- The records among the elements of a value of a complex attribute. -/
theorem exists_mem_elementsOf_iff (loc : Location)
    (hform : a.HasForm (fun element => ∃ fields, element = .complex fields) value)
    (fields : Record) :
    (∃ element ∈ elementsOf a value loc, element.2 = .complex fields) ↔ fields ∈ value.records := by
  rcases hform with rfl | hform
  · simp [elementsOf, Value.records]
  · -- a list has a place for each item, a single value is its own element
    split at hform
    · rename_i hmany
      obtain ⟨items, rfl, hitems⟩ := hform
      simp only [elementsOf, hmany, if_true, Value.records, Value.mem_recordsOf, List.mem_map]
      constructor
      · rintro ⟨-, ⟨⟨item, i⟩, hmem, rfl⟩, hitem⟩
        obtain rfl : item = .complex fields := hitem
        refine ⟨.complex fields, ?_, by simp [Value.records]⟩
        exact List.mem_of_getElem? (List.mk_mem_zipIdx_iff_getElem?.mp hmem)
      · rintro ⟨item, hmem, hrecord⟩
        obtain ⟨i, hi⟩ := List.getElem?_of_mem hmem
        refine ⟨_, ⟨(item, i), List.mk_mem_zipIdx_iff_getElem?.mpr hi, rfl⟩, ?_⟩
        rcases hitems item hmem with rfl | ⟨fields', rfl⟩
        · simp [Value.records] at hrecord
        · simpa [Value.records, eq_comm] using hrecord
    · obtain ⟨fields', rfl⟩ := hform
      simp [elementsOf, Value.records, eq_comm]

/-- The presence checks of the sub-attributes of one element. -/
theorem reports_validateElement (config : Presence) (q : Qualified) (subs : List SubAttribute)
    (element : Location × Value) :
    Reports (validateElement config q subs · element)
      (∀ fields, element.2 = .complex fields → ∀ sub ∈ subs,
        config.Admits (q.child sub.name) sub.toCharacteristics
          (Record.getD fields sub.name.text)) := by
  unfold validateElement
  cases hvalue : element.2 with
  | complex fields =>
    have hsubs := Reports.foldl fun sub (_ : sub ∈ subs) =>
      reports_presence config (q.child sub.name) sub.toCharacteristics
        (Record.getD fields sub.name.text) (element.1.childName sub.name.text)
    refine (hsubs.unlessHalted element.1).congr ?_
    simp
  | _ => exact Reports.skip.congr (by simp)

/-- The presence checks of the sub-attributes of all elements. -/
theorem reports_validateElements (config : Presence) (a : Attribute) (q : Qualified) (value : Value)
    (loc : Location) :
    Reports (validateElements config a q value loc)
      (∀ subs ∈ Attribute.subs? a, ∀ element ∈ elementsOf a value loc, ∀ fields,
        element.2 = .complex fields → ∀ sub ∈ subs.toList,
          config.Admits (q.child sub.name) sub.toCharacteristics
            (Record.getD fields sub.name.text)) := by
  unfold validateElements
  cases hsubs : Attribute.subs? a with
  | none => exact Reports.skip.congr (by simp)
  | some subs =>
    refine (Reports.foldl fun element _ =>
      reports_validateElement config q subs.toList element).congr ?_
    simp

/-- In a value of the right form the elements with a place are its records. -/
theorem forall_elements_iff (loc : Location)
    (hvalid : (Attribute.validate a value).hasErrors = false)
    (good : SubAttribute → Value → Prop) :
    (∀ subs ∈ Attribute.subs? a, ∀ element ∈ elementsOf a value loc, ∀ fields,
        element.2 = .complex fields → ∀ sub ∈ subs.toList,
          good sub (Record.getD fields sub.name.text)) ↔
      ∀ subs ∈ Attribute.subs? a, ∀ sub ∈ subs.toList, ∀ fields ∈ value.records,
        good sub (Record.getD fields sub.name.text) := by
  refine forall_congr' fun subs => forall_congr' fun hsubs => ?_
  have hmem := exists_mem_elementsOf_iff loc (Attribute.hasForm_of_validate hsubs hvalid)
  constructor
  · intro h sub hsub fields hfields
    obtain ⟨element, helement, hrecord⟩ := (hmem fields).mpr hfields
    exact h element helement fields hrecord sub hsub
  · intro h element helement fields hrecord sub hsub
    exact h sub hsub fields ((hmem fields).mp ⟨element, helement, hrecord⟩)

/-- The three steps of the check of an attribute report whether its value passes.  An attribute
    without a value passes if that is admitted, for null is checked no further. -/
theorem reports_validateAttribute (config : Presence) (ha : Attribute.Earnest a) (q : Qualified)
    (value : Value) (loc : Location) :
    Reports (validateAttribute config a q value loc) (config.Passes q a value) := by
  have hpresence := reports_presence config q a.toCharacteristics value loc
  have hvalue := Reports.merge (Attribute.earnest_validate ha value) loc
  have helements := reports_validateElements config a q value loc
  -- the value is looked at after its presence, and the elements after the value
  have hsteps := hpresence.comp
    ((Reports.ite (c := value.isNull = true) (fun _ => Reports.skip)
      fun _ => hvalue.comp (helements.unlessHalted loc)).unlessHalted loc)
  refine hsteps.congr ?_
  have hiff := fun (hvalid : (Attribute.validate a value).hasErrors = false) =>
    forall_elements_iff loc hvalid fun sub value =>
      config.Admits (q.child sub.name) sub.toCharacteristics value
  by_cases hnull : value.isNull = true
  · obtain rfl := Value.isNull_iff.mp hnull
    exact ⟨fun h => ⟨rfl, h.1, fun _ _ _ _ fields hfields => by simp [Value.records] at hfields⟩,
      fun h => ⟨h.admitted, fun _ => trivial, fun hvalue => absurd rfl hvalue⟩⟩
  · constructor
    · rintro ⟨hadmitted, -, hrest⟩
      have ⟨hvalid, hsubs⟩ := hrest hnull
      exact ⟨hvalid, hadmitted, (hiff hvalid).mp hsubs⟩
    · intro h
      exact ⟨h.admitted, fun hvalue => absurd hvalue hnull,
        fun _ => ⟨h.valid, (hiff h.valid).mpr h.subs⟩⟩

/-! ## Parts -/

/-- What is right about the data of a part: there is a record, or nothing need be there, and all
    attributes pass. -/
def Part.Passes (p : Part) (config : Presence) (complete : Bool) (r : Record) : Prop :=
  ∃ fields, p.data r = .ok fields ∧ (complete = true → p.required = true → fields ≠ []) ∧
    ∀ a ∈ p.attributes.toList,
      config.Passes (Qualified.ofAttr p.uri a.name) a (Record.getD fields a.name.text)

/-- The check of a part reports whether the part passes. -/
theorem reports_validatePart {p : Part} (hp : ∀ a ∈ p.attributes.toList, Attribute.Earnest a)
    (r : Record) (config : Presence) (complete : Bool) :
    Reports (validatePart r config complete · p) (p.Passes config complete r) := by
  unfold validatePart Part.Passes
  cases hdata : p.data r with
  | error other => exact (Reports.addError ..).congr (by simp)
  | ok fields =>
    have hattributes := Reports.foldl fun a ha => reports_validateAttribute config (hp a ha)
      (Qualified.ofAttr p.uri a.name) (Record.getD fields a.name.text) (p.locationOf a)
    have hpart := Reports.ite (c := (complete && p.required && fields.isEmpty) = true)
      (fun _ => Reports.addError .missingValue false (.ofName p.uri.text)) fun _ => hattributes
    refine hpart.congr ?_
    -- data is missing if it is required and there is none
    have hmissing : (complete && p.required && fields.isEmpty) = true ↔
        complete = true ∧ p.required = true ∧ fields = [] := by simp [and_assoc]
    rw [hmissing]
    constructor
    · rintro ⟨hthere, hall⟩
      exact ⟨fields, rfl, fun hcomplete hrequired hnil => hthere ⟨hcomplete, hrequired, hnil⟩,
        hall hthere⟩
    · rintro ⟨fields', hdata', hthere, hall⟩
      obtain rfl : fields = fields' := by simpa using hdata'
      exact ⟨fun h => hthere h.1 h.2.1 h.2.2, fun _ => hall⟩

/-- All attributes pass just if no error is found among them. -/
theorem validateAttributes_iff (hs : s.Earnest) (r : Record) (config : Presence) (complete : Bool) :
    (s.validateAttributes r config complete).Earnest ∧
      ((s.validateAttributes r config complete).hasErrors = false ↔
        ∀ p ∈ s.parts, p.Passes config complete r) := by
  have hparts := Reports.foldl fun p hp => reports_validatePart (hs p hp) r config complete
  exact ⟨hparts.earnest earnest_empty, hparts.on_empty⟩

end Schema

end Scim
