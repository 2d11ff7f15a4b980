import Scim.Attribute.Validation
import Scim.Proofs.Issues.Halting
import Scim.Proofs.Issues.Only

/-!
  # What a checked value looks like

  A value consists of records (`Value.records`), and what is to be said of them can be said without
  looking at lists.  A value that passes the check of its attribute has the form its declaration
  promises: without elements of the wrong kind, and a list just where the attribute has many values
  (`Attribute.hasForm_of_validate`).  And nothing halts without an error (`Attribute.earnest_validate`)
  as long as that is true of what further validators find.  It is, if they collect their issues step by
  step (`Attribute.Stepwise.earnest`), and where there are none (`Attribute.Plain.earnest`).
  Without further validators, the errors found are about the value itself (`Attribute.only_validate`).
-/

namespace Scim

/-! ## Further validators -/

/-- What further validators find halts nothing without an error. -/
def Characteristics.Earnest (c : Characteristics) : Prop :=
  ∀ validator ∈ c.validators, ∀ value, (validator value).Earnest

/-- Further validators collect their issues step by step, which is the only way there is to come by
    issues. -/
def Characteristics.Stepwise (c : Characteristics) : Prop :=
  ∀ validator ∈ c.validators, ∀ value, ∃ history : Issues.History, history.issues = validator value

/-- What is collected step by step halts nothing without an error. -/
theorem Characteristics.Stepwise.earnest {c : Characteristics} (h : c.Stepwise) : c.Earnest := by
  intro validator hvalidator value
  obtain ⟨history, hissues⟩ := h validator hvalidator value
  exact hissues ▸ history.coherent.earnest

/-- What the further validators of an attribute and of its sub-attributes find halts nothing without
    an error. -/
structure Attribute.Earnest (a : Attribute) : Prop where
  own : a.toCharacteristics.Earnest
  subs : ∀ subs ∈ Attribute.subs? a, ∀ sub ∈ subs.toList, sub.toCharacteristics.Earnest

/-- The further validators of an attribute and of its sub-attributes collect their issues step by
    step. -/
structure Attribute.Stepwise (a : Attribute) : Prop where
  own : a.toCharacteristics.Stepwise
  subs : ∀ subs ∈ Attribute.subs? a, ∀ sub ∈ subs.toList, sub.toCharacteristics.Stepwise

/-- Collecting issues step by step suffices, for an attribute and for its sub-attributes. -/
theorem Attribute.Stepwise.earnest {a : Attribute} (h : Attribute.Stepwise a) :
    Attribute.Earnest a where
  own := h.own.earnest
  subs subs hsubs sub hsub := (h.subs subs hsubs sub hsub).earnest

/-- Neither the attribute nor a sub-attribute has validators beside its declaration. -/
structure Attribute.Plain (a : Attribute) : Prop where
  own : a.validators = []
  subs : ∀ subs ∈ Attribute.subs? a, ∀ sub ∈ subs.toList, sub.validators = []

instance (a : Attribute) : Decidable (Attribute.Plain a) :=
  decidable_of_iff (a.validators = [] ∧ ∀ subs ∈ Attribute.subs? a, ∀ sub ∈ subs.toList,
    sub.validators = []) ⟨fun h => ⟨h.1, h.2⟩, fun h => ⟨h.own, h.subs⟩⟩

/-- Without further validators there is nothing to ask of them. -/
theorem Attribute.Plain.earnest {a : Attribute} (h : Attribute.Plain a) : Attribute.Earnest a where
  own validator hvalidator := by simp [h.own] at hvalidator
  subs subs hsubs sub hsub validator hvalidator := by
    simp [h.subs subs hsubs sub hsub] at hvalidator

/-! ## Elements -/

mutual

/-- The records that a value consists of: the value itself, or the elements of a list, at any
    depth. -/
def Value.records : Value → List Record
  | .complex fields => [fields]
  | .list items => Value.recordsOf items
  | _ => []

/-- The records that the items of a list consist of. -/
def Value.recordsOf : List Value → List Record
  | [] => []
  | item :: rest => item.records ++ Value.recordsOf rest

end

/-- The records of a list are those of its items. -/
theorem Value.mem_recordsOf {element : Record} {items : List Value} :
    element ∈ Value.recordsOf items ↔ ∃ item ∈ items, element ∈ item.records := by
  induction items with
  | nil => simp [Value.recordsOf]
  | cons item rest ih => simp [Value.recordsOf, ih]

/-- Null is the only value that counts as null. -/
theorem Value.isNull_iff {value : Value} : value.isNull = true ↔ value = .null := by
  cases value <;> simp [Value.isNull]

/-- There is nothing, or every element is good: the items of a list that are not null, or else the
    value itself. -/
def AttributeOf.HasForm {κ : Type} (a : AttributeOf κ) (good : Value → Prop) (value : Value) : Prop :=
  value = .null ∨
    if a.multiValued then ∃ items, value = .list items ∧ ∀ item ∈ items, item = .null ∨ good item
    else good value

/-- The form remains with a weaker notion of goodness. -/
theorem AttributeOf.HasForm.imp {κ : Type} {a : AttributeOf κ} {good good' : Value → Prop}
    {value : Value} (h : a.HasForm good value) (himp : ∀ element, good element → good' element) :
    a.HasForm good' value := by
  refine Or.imp_right (fun hform => ?_) h
  split at hform
  · rename_i hmany
    obtain ⟨items, rfl, hitems⟩ := hform
    rw [if_pos hmany]
    exact ⟨items, rfl, fun item hitem => (hitems item hitem).imp_right (himp item)⟩
  · rename_i hone
    rw [if_neg hone]
    exact himp value hform

/-- The value of an attribute that has one value at most. -/
theorem AttributeOf.HasForm.single {κ : Type} {a : AttributeOf κ} {good : Value → Prop}
    {value : Value} (h : a.HasForm good value) (hone : a.multiValued = false) :
    value = .null ∨ good value := by
  simpa only [HasForm, hone, Bool.false_eq_true, if_false] using h

namespace AttributeOf

variable {κ : Type} {single : Value → Issues} {fine : Issues → Prop}

/-- The check of a list is fine just if it was before and is for each item that is not null. -/
theorem validateItems_iff (hfine : Issues.Hereditary fine) (items : List Value) :
    ∀ (issues : Issues) (index : Nat), fine (validateItems single issues index items) ↔
      fine issues ∧ ∀ item ∈ items, item = .null ∨ fine (single item) := by
  induction items with
  | nil => simp [validateItems]
  | cons item rest ih =>
    intro issues index
    unfold validateItems
    rw [ih, List.forall_mem_cons, ← Value.isNull_iff]
    by_cases hnull : item.isNull = true
    · simp only [hnull, if_true, true_or, true_and]
    · simp only [hnull, Bool.false_eq_true, if_false, false_or, hfine.merge_iff, and_assoc]

/-- The check of a list halts nothing without an error if that of an item does not. -/
theorem earnest_validateItems (hsingle : ∀ item, (single item).Earnest) (items : List Value) :
    ∀ {issues : Issues} (index : Nat),
      issues.Earnest → (validateItems single issues index items).Earnest := by
  induction items with
  | nil => exact fun _ h => h
  | cons item rest ih =>
    intro issues index h
    unfold validateItems
    apply ih
    split
    · exact h
    · exact h.merge (hsingle item) _

/-- What holds after further validators held before. -/
theorem of_validators (hfine : Issues.Hereditary fine) (validators : List (Value → Issues))
    (value : Value) : ∀ issues : Issues, fine (validators.foldl (fun issues validator =>
      issues.merge (validator value) .root) issues) → fine issues := by
  induction validators with
  | nil => exact fun _ h => h
  | cons validator rest ih =>
    intro issues h
    exact (hfine.merge_iff.mp (ih _ h)).1

/-- If the whole check is fine, then the value has the form, with elements whose check is fine. -/
theorem hasForm_of_validateWith (hfine : Issues.Hereditary fine) {a : AttributeOf κ}
    {complex : Bool} {value : Value} (h : fine (a.validateWith complex single value)) :
    a.HasForm (fun element => fine (single element)) value := by
  -- the validators that come last take nothing back
  have hkind : ∀ issues : Issues, fine (if issues.canProceed then
      a.validators.foldl (fun issues validator => issues.merge (validator value) .root) issues
      else issues) → fine issues := by
    intro issues hissues
    split at hissues
    · exact of_validators hfine _ _ _ hissues
    · exact hissues
  unfold validateWith at h
  split at h
  · rename_i hnull
    exact Or.inl (Value.isNull_iff.mp hnull)
  · right
    dsimp only at h
    split at h
    · rename_i hmany
      rw [if_pos hmany]
      split at h
      · -- a list: each item is fine by itself, before a second primary element is reported
        rename_i items _
        have hitems := hkind _ h
        refine ⟨items, rfl, ((validateItems_iff hfine items .empty 0).mp ?_).2⟩
        split at hitems
        · exact hfine.of_addError hitems
        · exact hitems
      · exact (hfine.not_fatal _ _ h).elim
    · rename_i hone
      rw [if_neg hone]
      exact hkind _ h

/-- Further validators that are earnest keep issues earnest. -/
theorem earnest_validators {validators : List (Value → Issues)} {value : Value}
    (hvalidators : ∀ validator ∈ validators, (validator value).Earnest) :
    ∀ {issues : Issues}, issues.Earnest → (validators.foldl (fun issues validator =>
      issues.merge (validator value) .root) issues).Earnest := by
  induction validators with
  | nil => exact fun h => h
  | cons validator rest ih =>
    intro issues h
    exact ih (fun other hother => hvalidators other (List.mem_cons_of_mem _ hother))
      (h.merge (hvalidators validator List.mem_cons_self) _)

/-- The check of a whole value is earnest if the validators and the check of an element are. -/
theorem earnest_validateWith {a : AttributeOf κ} (ha : a.toCharacteristics.Earnest)
    (hsingle : ∀ element, (single element).Earnest) (complex : Bool) (value : Value) :
    (a.validateWith complex single value).Earnest := by
  -- the validators come last, and only if they may
  have hkind : ∀ {issues : Issues}, issues.Earnest → (if issues.canProceed then
      a.validators.foldl (fun issues validator => issues.merge (validator value) .root) issues
      else issues).Earnest := by
    intro issues h
    split
    · exact earnest_validators (fun validator hvalidator => ha validator hvalidator value) h
    · exact h
  unfold validateWith
  split
  · exact Issues.earnest_empty
  · dsimp only
    split
    · split
      · apply hkind
        split
        · exact Issues.earnest_of_hasErrors (Issues.hasErrors_addError ..)
        · exact earnest_validateItems hsingle _ 0 Issues.earnest_empty
      · exact Issues.earnest_fatal _ _
    · exact hkind (hsingle value)

end AttributeOf

/-! ## Sub-attributes -/

/-- A text that is not permitted is an error, one that is not recommended is a warning. -/
theorem Characteristics.earnest_checkCanonical (c : Characteristics) (s : String) {issues : Issues}
    (h : issues.Earnest) : (c.checkCanonical s issues).Earnest := by
  unfold checkCanonical
  split
  · exact h
  · split
    · exact Issues.earnest_of_hasErrors (Issues.hasErrors_addError ..)
    · exact h.addWarning _ _

namespace SubAttribute

theorem earnest_validateSingle (a : SubAttribute) (value : Value) :
    (SubAttribute.validateSingle a value).Earnest := by
  unfold validateSingle
  split
  · exact Issues.earnest_fatal _ _
  · split
    · apply Characteristics.earnest_checkCanonical
      split
      · exact Issues.earnest_of_hasErrors (Issues.hasErrors_addError ..)
      · exact Issues.earnest_empty
    · exact Issues.earnest_empty

theorem earnest_validate {a : SubAttribute} (ha : a.toCharacteristics.Earnest) (value : Value) :
    (SubAttribute.validate a value).Earnest :=
  AttributeOf.earnest_validateWith ha (earnest_validateSingle a) false value

end SubAttribute

/-! ## Attributes -/

namespace Attribute

/-- The checks of the sub-attributes, one after the other, keep issues earnest. -/
theorem earnest_validateSubs {subs : List SubAttribute}
    (hsubs : ∀ sub ∈ subs, sub.toCharacteristics.Earnest) (fields : Record) {issues : Issues}
    (h : issues.Earnest) :
    (validateSubs subs fields issues).Earnest := by
  unfold validateSubs
  induction subs generalizing issues with
  | nil => exact h
  | cons sub rest ih =>
    rw [List.foldl_cons]
    apply ih fun b hb => hsubs b (List.mem_cons_of_mem sub hb)
    split
    · exact h.merge (SubAttribute.earnest_validate (hsubs sub List.mem_cons_self) _) _
    · exact h

theorem earnest_validateSingle {a : Attribute} (ha : Attribute.Earnest a) (value : Value) :
    (Attribute.validateSingle a value).Earnest := by
  unfold validateSingle
  split
  · exact SubAttribute.earnest_validateSingle _ _
  · rename_i subs hkind
    split
    · have hsubs := ha.subs subs (by simp only [subs?, hkind, Option.mem_def])
      exact earnest_validateSubs hsubs _ Issues.earnest_empty
    · exact Issues.earnest_fatal _ _

/-- Nothing halts without an error. -/
theorem earnest_validate {a : Attribute} (ha : Attribute.Earnest a) (value : Value) :
    (Attribute.validate a value).Earnest :=
  AttributeOf.earnest_validateWith ha.own (earnest_validateSingle ha) _ value

/-- A complex attribute that passes its check has records for elements. -/
theorem hasForm_of_validate {a : Attribute} {subs : AttributeSet SimpleKind} {value : Value}
    (hsubs : Attribute.subs? a = some subs) (h : (Attribute.validate a value).hasErrors = false) :
    a.HasForm (fun element => ∃ fields, element = .complex fields) value := by
  have hrecord : ∀ element, (Attribute.validateSingle a element).hasErrors = false →
      ∃ fields, element = .complex fields := by
    -- an element that is no record is refused for good
    intro element helement
    unfold validateSingle at helement
    split at helement
    · rename_i k hkind
      simp [subs?, hkind] at hsubs
    · split at helement
      · exact ⟨_, rfl⟩
      · simp at helement
  exact (AttributeOf.hasForm_of_validateWith Issues.hereditary_noErrors h).imp hrecord

end Attribute

/-! ## Which errors are found -/

/-- The error is about a value that is there, not about whether it should be there. -/
def Error.OfValue : Error → Prop
  | .badType .. | .badEncoding .. | .badSyntax .. | .mustBeOneOf .. | .badReference ..
  | .multiplePrimaryValues => True
  | _ => False

namespace SimpleKind

variable {k : SimpleKind} {value : Value} {s : String} {e : Error}

/-- The wrong kind is an error about the value. -/
theorem ofValue_kindError? (h : k.kindError? value = some e) : e.OfValue := by
  unfold kindError? at h
  split at h
  -- the value is of the kind
  iterate 5
    · simp at h
  -- a text that is to be read as something else, and cannot be
  iterate 2
    · simp only [Option.ite_none_left_eq_some, Option.some.injEq] at h
      obtain ⟨-, rfl⟩ := h
      trivial
  · obtain rfl := Option.some.inj h
    trivial

/-- A text that is not written as its kind asks is an error about the value. -/
theorem ofValue_textError? {proceed : Bool} (h : k.textError? s = some (e, proceed)) :
    e.OfValue := by
  unfold textError? at h
  split at h
  -- each kind with a form of its own has one error for it
  iterate 4
    · simp only [Option.ite_none_left_eq_some, Option.some.injEq, Prod.mk.injEq] at h
      obtain ⟨-, rfl, -⟩ := h
      trivial
  · simp at h

end SimpleKind

namespace AttributeOf

variable {κ : Type} {single : Value → Issues}

/-- The items of a list add errors about values only. -/
theorem addsOnly_validateItems (hsingle : ∀ item, (single item).Only Error.OfValue)
    (items : List Value) :
    ∀ index, Issues.AddsOnly Error.OfValue (validateItems single · index items) := by
  induction items with
  | nil => exact fun _ => Issues.AddsOnly.skip
  | cons item rest ih =>
    intro index
    exact Issues.AddsOnly.comp (Issues.AddsOnly.ite (c := item.isNull = true)
      (fun _ => Issues.AddsOnly.skip) fun _ => Issues.AddsOnly.merge (hsingle item) (.ofIndex index))
      (ih (index + 1))

/-- Without further validators the check of a whole value finds errors about the value only. -/
theorem only_validateWith {a : AttributeOf κ} (hplain : a.validators = [])
    (hsingle : ∀ element, (single element).Only Error.OfValue) (complex : Bool) (value : Value) :
    (a.validateWith complex single value).Only Error.OfValue := by
  unfold validateWith
  simp only [hplain, List.foldl_nil, ite_self]
  split
  · exact Issues.only_empty
  · split
    · split
      · rename_i items _
        have hitems := addsOnly_validateItems hsingle items 0 Issues.only_empty
        split
        · refine hitems.addError ?_ true .root
          trivial
        · exact hitems
      · exact Issues.only_fatal trivial _
    · exact hsingle value

end AttributeOf

/-- A text that is not canonical is an error about the value, if it is one. -/
theorem Characteristics.addsOnly_checkCanonical (c : Characteristics) (s : String) :
    Issues.AddsOnly Error.OfValue (c.checkCanonical s) := by
  intro issues h
  unfold checkCanonical
  split
  · exact h
  · split
    · refine h.addError ?_ false .root
      trivial
    · exact h.addWarning _ _

/-- An element of a simple kind has errors about its kind and its text only. -/
theorem SubAttribute.only_validateSingle (a : SubAttribute) (value : Value) :
    (SubAttribute.validateSingle a value).Only Error.OfValue := by
  unfold validateSingle
  split
  · rename_i error herror
    exact Issues.only_fatal (SimpleKind.ofValue_kindError? herror) _
  · split
    · apply Characteristics.addsOnly_checkCanonical
      split
      · rename_i error proceed herror
        exact Issues.only_empty.addError (SimpleKind.ofValue_textError? herror) _ _
      · exact Issues.only_empty
    · exact Issues.only_empty

/-- The check of a sub-attribute finds errors about the value only. -/
theorem SubAttribute.only_validate {a : SubAttribute} (hplain : a.validators = []) (value : Value) :
    (SubAttribute.validate a value).Only Error.OfValue :=
  AttributeOf.only_validateWith hplain (SubAttribute.only_validateSingle a) false value

namespace Attribute

/-- The sub-attributes that are there add errors about their values only. -/
theorem addsOnly_validateSubs {subs : List SubAttribute} (hplain : ∀ sub ∈ subs, sub.validators = [])
    (fields : Record) : Issues.AddsOnly Error.OfValue (validateSubs subs fields) := by
  refine Issues.AddsOnly.foldl fun sub hsub => ?_
  cases Record.get? fields sub.name.text with
  | none => exact Issues.AddsOnly.skip
  | some value =>
    exact Issues.AddsOnly.merge (SubAttribute.only_validate (hplain sub hsub) value) _

theorem only_validateSingle {a : Attribute} (hplain : Plain a) (value : Value) :
    (Attribute.validateSingle a value).Only Error.OfValue := by
  unfold validateSingle
  split
  · exact SubAttribute.only_validateSingle _ _
  · rename_i subs hkind
    split
    · have hsubs := hplain.subs subs (by simp only [subs?, hkind, Option.mem_def])
      exact addsOnly_validateSubs hsubs _ Issues.only_empty
    · exact Issues.only_fatal trivial _

/-- The check of a value reports errors about the value only. -/
theorem only_validate {a : Attribute} (hplain : Plain a) (value : Value) :
    (Attribute.validate a value).Only Error.OfValue :=
  AttributeOf.only_validateWith hplain.own (only_validateSingle hplain) _ value

end Attribute

end Scim
