import Scim.Proofs.Attribute.Conformance
import Scim.Proofs.Attribute.Conversion
import Scim.Proofs.Issues.Codes

/-!
  # Checking before and after reading

  A value may be checked as it came in, or as what it is read as.  Reading makes date-times of texts and
  decimals of integers, and it gives the fields of a record their declared names.  The check takes
  either, so it finds the same codes; only what it says of a value's type may differ.

    * `Value.ReadsAs`: the value and what it is read as make no difference to a check, nor to the
      questions that are asked beside it: whether there is a value, and which element is the primary one;
    * simple kinds have it (`SubAttribute.readsAs_element`), it is kept where the elements of lists are
      read (`AttributeOf.readsAs_convertWith`), and where the fields of records are
      (`Attribute.readsAs_record`).

  Fields that are not declared are dropped, and with them what they have to say about the presence of a
  record.  So its keys have to be declared ones (`Record.DeclaredBy`).
-/

namespace Scim

/-! ## What reading keeps -/

/-- A check finds the same codes in a value and in what it is read as, and the two agree in all that is
    asked of values otherwise. -/
structure Value.ReadsAs (check : Value → Issues) (value read : Value) : Prop where
  list : value.list? = none → read.list? = none
  null : read.isNull = value.isNull
  present : read.isPresent = value.isPresent
  boolean : ∀ b, read = .boolean b ↔ value = .boolean b
  primary : read.IsPrimary ↔ value.IsPrimary
  checked : (check value).SameCodes (check read)

/-- A value that is left alone is read as itself. -/
theorem Value.ReadsAs.refl (check : Value → Issues) (value : Value) : value.ReadsAs check value where
  list h := h
  null := rfl
  present := rfl
  boolean _ := Iff.rfl
  primary := Iff.rfl
  checked := .refl _

/-! ## Lists -/

namespace AttributeOf

variable {κ : Type} {single : Value → Issues} {f : Value → Value}

/-- Null is passed over before and after. -/
theorem sameCodes_foundIn {value read : Value} (hnull : read.isNull = value.isNull)
    (h : (single value).SameCodes (single read)) :
    (foundIn single value).SameCodes (foundIn single read) := by
  unfold foundIn
  rw [hnull]
  split
  · exact .refl _
  · exact h

/-- The check of a list finds the same codes in the items and in what they are read as. -/
theorem sameEffect_validateItems {items : List Value}
    (h : ∀ item ∈ items, Value.ReadsAs single item (f item)) (index : Nat) :
    Issues.SameEffect (validateItems single · index items)
      (validateItems single · index (items.map f)) := by
  induction items generalizing index with
  | nil => exact .skip
  | cons item rest ih =>
    have hitem := h item List.mem_cons_self
    have hrest := ih (fun other hother => h other (List.mem_cons_of_mem item hother)) (index + 1)
    have hfound := sameCodes_foundIn hitem.null hitem.checked
    simp only [List.map_cons, validateItems_cons]
    exact .comp (.merge hfound (.ofIndex index)) hrest

/-- Reading leaves the primary elements as many as they were, as far as the check counts. -/
theorem primaryCount_map {items : List Value}
    (h : ∀ item ∈ items, Value.ReadsAs single item (f item)) :
    1 < primaryCount (items.map f) ↔ 1 < primaryCount items := by
  rw [← Nat.not_le, ← Nat.not_le, primaryCount_le_one_iff, primaryCount_le_one_iff, List.pairwise_map]
  refine not_congr (List.Pairwise.iff_of_mem fun {left right} hleft hright => ?_)
  rw [(h left hleft).primary, (h right hright).primary]

/-- Where there is one value at most, it is converted as an element. -/
theorem convertWith_of_one {a : AttributeOf κ} (hone : a.multiValued = false) (value : Value) :
    a.convertWith f none value = f value := by
  cases value with
  | list items => rw [convertWith_list, hone, if_neg Bool.false_ne_true]
  | _ => rfl

/-- What holds of the elements holds of the values that consist of them. -/
theorem readsAs_convertWith {a : AttributeOf κ} (hplain : a.validators = []) (complex : Bool)
    {value : Value} (hself : Value.ReadsAs single value (f value))
    (hitems : ∀ items, value = .list items → ∀ item ∈ items, Value.ReadsAs single item (f item)) :
    Value.ReadsAs (a.validateWith complex single) value (a.convertWith f none value) := by
  cases hmany : a.multiValued with
  | false =>
    rw [convertWith_of_one hmany]
    refine { hself with checked := ?_ }
    rw [validateWith_of_one hplain hmany, validateWith_of_one hplain hmany]
    exact sameCodes_foundIn hself.null hself.checked
  | true =>
    cases hlist : value.list? with
    | none =>
      rw [convertWith_of_single a hlist]
      refine { hself with checked := ?_ }
      rw [validateWith_of_not_list hmany complex hlist,
        validateWith_of_not_list hmany complex (hself.list hlist)]
      -- the type at hand may be another one afterwards, but the code is not
      have hcode : (Error.badType "list" value.typeName).code =
          (Error.badType "list" (f value).typeName).code := rfl
      exact sameCodes_foundIn hself.null (.fatal hcode .root)
    | some items =>
      obtain rfl : value = .list items := by
        cases value with
        | list items => exact congrArg Value.list (Option.some.inj hlist)
        | _ => cases hlist
      have hitems := hitems items rfl
      rw [convertWith_list, hmany, if_pos rfl]
      -- a list stays a list of as many items
      refine ⟨fun hnone => ?_, rfl, ?_, by simp, by simp [Value.IsPrimary], ?_⟩
      · cases hnone
      · simp [Value.isPresent]
      · simp only [validateWith_list hplain hmany, primaryCount_map hitems]
        have hsame := sameEffect_validateItems hitems 0 (Issues.SameCodes.refl .empty)
        split
        · exact hsame.addError rfl true .root
        · exact hsame

end AttributeOf

/-! ## Simple kinds -/

/-- Values of the sub-attribute are read and checked as it is declared, and no texts are canonical where
    moments are to be read from them. -/
structure SubAttribute.Readable (a : SubAttribute) : Prop where
  validators : a.validators = []
  deserializer : a.deserializer = none
  moments : a.kind = .dateTime → a.canonicalValues = []

instance (a : SubAttribute) : Decidable (SubAttribute.Readable a) :=
  decidable_of_iff (a.validators = [] ∧ a.deserializer = none ∧
    (a.kind = .dateTime → a.canonicalValues = []))
    ⟨fun h => ⟨h.1, h.2.1, h.2.2⟩, fun h => ⟨h.validators, h.deserializer, h.moments⟩⟩

/-- No moment is read from the empty text, so its text counts as present. -/
theorem DateTime.ne_empty_of_parse? {s : String} {t : DateTime} (h : DateTime.parse? s = some t) :
    s ≠ "" := by
  rintro rfl
  have hempty : DateTime.parse? "" = none := by decide +kernel
  rw [hempty] at h
  cases h

namespace SubAttribute

variable {a : SubAttribute}

/-- A text of a moment is as good as the moment, and an integer as good as the decimal. -/
theorem readsAs_element (hmoments : a.kind = .dateTime → a.canonicalValues = []) (element : Value) :
    Value.ReadsAs (SubAttribute.validateSingle a) element (a.kind.deserialize element) := by
  rcases a.kind.deserialize_cases element with hself | ⟨s, t, rfl, hparse, hkind, hread⟩ |
    ⟨n, rfl, hkind, hread⟩
  · rw [hself]
    exact .refl _ element
  · -- a moment is read from the text, and no canonical values are asked of it
    have hpresent : s ≠ "" := DateTime.ne_empty_of_parse? hparse
    rw [hread]
    refine ⟨fun _ => rfl, rfl, ?_, by simp, by simp [Value.IsPrimary], .of_eq ?_⟩
    · simp [Value.isPresent, hpresent]
    · simp [validateSingle, hkind, SimpleKind.kindError?, hparse, SimpleKind.textError?,
        Characteristics.checkCanonical, hmoments hkind]
  · rw [hread]
    refine ⟨fun _ => rfl, rfl, rfl, by simp, by simp [Value.IsPrimary], .of_eq ?_⟩
    simp [validateSingle, hkind, SimpleKind.kindError?]

/-- A value of a sub-attribute, and what it is read as. -/
theorem readsAs (h : Readable a) (value : Value) :
    Value.ReadsAs (SubAttribute.validate a) value (SubAttribute.deserialize a value) := by
  unfold SubAttribute.deserialize
  rw [h.deserializer]
  exact AttributeOf.readsAs_convertWith h.validators false (readsAs_element h.moments value)
    fun _ _ item _ => readsAs_element h.moments item

/-- A value that is missing is still missing. -/
theorem deserialize_null (h : Readable a) : SubAttribute.deserialize a .null = .null :=
  Value.isNull_iff.mp (readsAs h .null).null

end SubAttribute

/-! ## Records -/

/-- Every key is the name of one of the attributes, up to case. -/
def Record.DeclaredBy {κ : Type} (r : Record) (attrs : AttributeSet κ) : Prop :=
  ∀ entry ∈ r, ∃ a ∈ attrs.toList, Record.sameKey entry.1 a.name.text = true

instance {κ : Type} (r : Record) (attrs : AttributeSet κ) : Decidable (r.DeclaredBy attrs) := by
  unfold Record.DeclaredBy
  infer_instance

namespace AttributeOf

variable {κ : Type} {attrs : AttributeSet κ} {g : AttributeOf κ → Value → Value} {fields : Record}

/-- If nothing is dropped, a record that was not empty is not empty afterwards. -/
theorem isEmpty_convertRecord (h : fields.DeclaredBy attrs) :
    (convertRecord attrs.toList g fields).isEmpty = fields.isEmpty := by
  cases fields with
  | nil => simp [convertRecord, Record.get?]
  | cons entry rest =>
    -- the first entry is kept under the name of its attribute
    obtain ⟨a, ha, hsame⟩ := h entry List.mem_cons_self
    have hget : Record.get? (entry :: rest) a.name.text = some entry.2 := if_pos hsame
    have hmem : (a.name.text, g a entry.2) ∈ convertRecord attrs.toList g (entry :: rest) :=
      List.mem_filterMap.mpr ⟨a, ha, by rw [hget]; rfl⟩
    rw [List.isEmpty_cons, List.isEmpty_eq_false_iff]
    exact List.ne_nil_of_mem hmem

/-- Under any key there is what one of the attributes reads, or there is nothing before and after. -/
theorem get?_convertRecord_cases (h : fields.DeclaredBy attrs) (key : String) :
    (Record.get? fields key = none ∧ Record.get? (convertRecord attrs.toList g fields) key = none) ∨
      ∃ a ∈ attrs.toList, Record.get? (convertRecord attrs.toList g fields) key =
        (Record.get? fields key).map (g a) := by
  -- keys are compared up to case, so the key may be written as the name
  by_cases hdeclared : ∃ a ∈ attrs.toList, Text.lower a.name.text = Text.lower key
  · obtain ⟨a, ha, hkey⟩ := hdeclared
    refine .inr ⟨a, ha, ?_⟩
    rw [← Record.get?_congr hkey, ← Record.get?_congr hkey, get?_convertRecord ha]
  · refine .inl ⟨Record.get?_of_lacks fun entry hentry hkey => ?_,
      Record.get?_of_lacks fun entry hentry hkey => ?_⟩
    · obtain ⟨a, ha, hsame⟩ := h entry hentry
      exact hdeclared ⟨a, ha, (Record.sameKey_iff.mp hsame).symm.trans hkey⟩
    · obtain ⟨a, ha, hmade⟩ := List.mem_filterMap.mp hentry
      obtain ⟨stored, -, rfl⟩ := Option.map_eq_some_iff.mp hmade
      exact hdeclared ⟨a, ha, hkey⟩

end AttributeOf

/-! ## Attributes -/

/-- Values of the attribute are read and checked as it is declared, and so are those of its
    sub-attributes. -/
structure Attribute.Readable (a : Attribute) : Prop where
  validators : a.validators = []
  deserializer : a.deserializer = none
  moments : Attribute.type a = .dateTime → a.canonicalValues = []
  subs : ∀ subs ∈ Attribute.subs? a, ∀ sub ∈ subs.toList, SubAttribute.Readable sub

instance (a : Attribute) : Decidable (Attribute.Readable a) :=
  decidable_of_iff (a.validators = [] ∧ a.deserializer = none ∧
    (Attribute.type a = .dateTime → a.canonicalValues = []) ∧
      ∀ subs ∈ Attribute.subs? a, ∀ sub ∈ subs.toList, SubAttribute.Readable sub)
    ⟨fun h => ⟨h.1, h.2.1, h.2.2.1, h.2.2.2⟩,
      fun h => ⟨h.validators, h.deserializer, h.moments, h.subs⟩⟩

namespace Attribute

variable {a : Attribute}

/-- The sub-attributes find the same codes in a record and in what it is read as. -/
theorem sameEffect_validateSubs {subs : AttributeSet SimpleKind}
    (h : ∀ sub ∈ subs.toList, SubAttribute.Readable sub) (fields : Record) :
    Issues.SameEffect (validateSubs subs.toList fields)
      (validateSubs subs.toList
        (AttributeOf.convertRecord subs.toList SubAttribute.deserialize fields)) := by
  refine Issues.SameEffect.foldl fun sub hsub => ?_
  rw [AttributeOf.get?_convertRecord hsub]
  cases Record.get? fields sub.name.text with
  | none => exact .skip
  | some value => exact .merge (SubAttribute.readsAs (h sub hsub) value).checked _

/-- A record is read field by field. -/
theorem readsAs_record {subs : AttributeSet SimpleKind} (hkind : a.kind = .complex subs)
    (h : ∀ sub ∈ subs.toList, SubAttribute.Readable sub) {fields : Record}
    (hkeys : fields.DeclaredBy subs) :
    Value.ReadsAs (Attribute.validateSingle a) (.complex fields)
      (.complex (AttributeOf.convertRecord subs.toList SubAttribute.deserialize fields)) where
  list _ := rfl
  null := rfl
  present := congrArg (!·) (AttributeOf.isEmpty_convertRecord hkeys)
  boolean := by simp
  primary := by
    simp only [Value.IsPrimary, Value.complex.injEq, exists_eq_left']
    rcases AttributeOf.get?_convertRecord_cases (g := SubAttribute.deserialize) hkeys "primary" with
      ⟨hnone, hnone'⟩ | ⟨sub, hsub, hread⟩
    · rw [hnone, hnone']
    · rw [hread]
      cases Record.get? fields "primary" with
      | none => simp
      | some value => simpa using (SubAttribute.readsAs (h sub hsub) value).boolean true
  checked := by
    simp only [validateSingle, hkind]
    exact sameEffect_validateSubs h fields (.refl .empty)

/-- An element of any kind, and what it is read as. -/
theorem readsAs_element (h : Readable a) {element : Value}
    (hkeys : ∀ subs ∈ Attribute.subs? a, ∀ fields, element = .complex fields →
      Record.DeclaredBy fields subs) :
    Value.ReadsAs (Attribute.validateSingle a) element (a.kind.deserialize element) := by
  cases hkind : a.kind with
  | simple k =>
    have hmoments : k = .dateTime → a.canonicalValues = [] := by
      rintro rfl
      exact h.moments (by simp only [type, hkind, SimpleKind.type])
    -- an element of a simple kind is checked as a sub-attribute of the kind would be
    have hsingle : Attribute.validateSingle a = SubAttribute.validateSingle
        { toCharacteristics := a.toCharacteristics, name := a.name, kind := k } := by
      funext element
      simp only [validateSingle, hkind]
    rw [hsingle]
    exact SubAttribute.readsAs_element hmoments element
  | complex subs =>
    have hsubs : subs ∈ Attribute.subs? a := by simp only [subs?, hkind, Option.mem_def]
    cases element with
    | complex fields =>
      exact readsAs_record hkind (h.subs subs hsubs) (hkeys subs hsubs fields rfl)
    | _ => exact .refl _ _

/-- A value, and what it is read as. -/
theorem readsAs (h : Readable a) {value : Value}
    (hkeys : ∀ subs ∈ Attribute.subs? a, ∀ fields ∈ value.records, Record.DeclaredBy fields subs) :
    Value.ReadsAs (Attribute.validate a) value (Attribute.deserialize a value) := by
  unfold Attribute.deserialize
  rw [h.deserializer]
  refine AttributeOf.readsAs_convertWith h.validators _ (readsAs_element h ?_) ?_
  · rintro subs hsubs fields rfl
    exact hkeys subs hsubs fields (by simp [Value.records])
  · rintro items rfl item hitem
    refine readsAs_element h ?_
    rintro subs hsubs fields rfl
    refine hkeys subs hsubs fields ?_
    rw [Value.records, Value.mem_recordsOf]
    exact ⟨_, hitem, by simp [Value.records]⟩

theorem deserialize_null (h : Readable a) : Attribute.deserialize a .null = .null :=
  Value.isNull_iff.mp (readsAs h (by simp [Value.records])).null

end Attribute

/-- Where a list should be, the check names what there is instead: a text, or the moment that was read
    from it. -/
example :
    let moments : Attribute := { name := .value, kind := .simple .dateTime, multiValued := true }
    let text : Value := .string "2024-02-29T12:00:00Z"
    (Attribute.validate moments text).errors = [(.root, [.badType "list" "string"])] ∧
      (Attribute.validate moments (Attribute.deserialize moments text)).errors =
        [(.root, [.badType "list" "dateTime"])] := by
  decide +kernel

end Scim
