import Scim.Filter.Check
import Scim.Filter.Evaluation
import Scim.Proofs.Attribute.Validation

/-!
  # Kinds of values

  What the check of an attribute says of the kinds of its values, the form of texts and further
  validators left aside: an element is of the kind of its attribute, and a record is if its
  sub-attributes are (`Kind.Takes`).  A value that passes the check consists of such elements
  (`Attribute.takes_of_validate`).

  The values of a type are compared as certain values (`AttributeType.Compares`): a date-time and its
  text as a moment, an integer of a decimal attribute as a number.  Both sides of a comparison are
  brought there, an element of the attribute's kind (`Attribute.compares_value`) and an operand that
  fits its type (`Attribute.compares_operand`), and there they have an order
  (`AttributeType.Compares.isSome_compare`).
-/

namespace Scim

/-! ## Values that are compared with each other -/

namespace Value

/-- The value is an integer or a decimal. -/
def isNumber : Value → Bool
  | .integer _ | .decimal _ => true
  | _ => false

/-- Whether two values are of one kind.  Integers and decimals are, null is of no kind. -/
def ofOneKind : Value → Value → Bool
  | .string _, .string _ => true
  | .boolean _, .boolean _ => true
  | .dateTime _, .dateTime _ => true
  | left, right => left.isNumber && right.isNumber

end Value

/-- The values that values of a type are compared as. -/
def AttributeType.Compares : AttributeType → Value → Prop
  | .boolean, value => ∃ b, value = .boolean b
  | .integer, value => ∃ n, value = .integer n
  | .decimal, value => value.isNumber = true
  | .dateTime, value => ∃ t, value = .dateTime t
  | .string, value | .reference, value | .binary, value => ∃ s, value = .string s
  | .complex, _ => False

namespace AttributeType

variable {type : AttributeType} {left right : Value}

/-- Values that are compared as one type are of one kind. -/
theorem Compares.ofOneKind (hleft : type.Compares left) (hright : type.Compares right) :
    left.ofOneKind right = true := by
  cases type with
  -- integers and decimals are numbers, in any combination
  | decimal =>
    simp only [Compares] at hleft hright
    cases left <;> simp_all [Value.ofOneKind, Value.isNumber]
  | complex => exact hleft.elim
  | _ =>
    obtain ⟨x, rfl⟩ := hleft
    obtain ⟨y, rfl⟩ := hright
    rfl

/-- Values that are compared as one type have an order; only a decimal may be no number. -/
theorem Compares.isSome_compare (hleft : type.Compares left) (hright : type.Compares right)
    (hdecimal : type ≠ .decimal) : (left.compare right).isSome = true := by
  cases type with
  | decimal => exact absurd rfl hdecimal
  | complex => exact hleft.elim
  | _ =>
    obtain ⟨x, rfl⟩ := hleft
    obtain ⟨y, rfl⟩ := hright
    rfl

end AttributeType

/-! ## Values of a kind -/

/-- The value is of the kind. -/
def SimpleKind.Takes (k : SimpleKind) (value : Value) : Prop := k.kindError? value = none

/-- The sub-attributes of an element have values of their kinds, one or a list of them as
    declared. -/
def AttributeSet.Takes (subs : AttributeSet SimpleKind) (fields : Record) : Prop :=
  ∀ sub ∈ subs.toList, ∀ value ∈ Record.get? fields sub.name.text, sub.HasForm sub.kind.Takes value

/-- The element is of the kind: a complex one is a record whose values are. -/
def Kind.Takes : Kind → Value → Prop
  | .simple k, element => k.Takes element
  | .complex subs, element => ∃ fields, element = .complex fields ∧ subs.Takes fields

namespace SimpleKind

variable {k : SimpleKind} {value : Value}

theorem Takes.ne_null (h : k.Takes value) : value ≠ .null := by
  rintro rfl
  cases k <;> simp [Takes, kindError?] at h

/-- A list is of no kind, since a kind is asked of elements. -/
theorem Takes.ne_list (h : k.Takes value) (items : List Value) : value ≠ .list items := by
  rintro rfl
  cases k <;> simp [Takes, kindError?] at h

end SimpleKind

namespace Attribute

variable {a : Attribute}

/-- Only a complex kind has sub-attributes. -/
theorem kind_of_subs? {subs : AttributeSet SimpleKind} (h : a.subs? = some subs) :
    a.kind = .complex subs := by
  unfold subs? at h
  split at h
  · simp at h
  · rename_i hkind
    rw [hkind, Option.some.inj h]

/-- A text that is well formed, if it has to be a date-time, is compared as a value of its type. -/
theorem compares_text {s : String} (hdate : a.type = .dateTime → (DateTime.parse? s).isSome = true)
    (htype : a.type = .dateTime ∨ a.type = .string ∨ a.type = .reference ∨ a.type = .binary) :
    a.type.Compares (a.comparable (.string s)) := by
  rcases htype with htype | htype | htype | htype
  · obtain ⟨t, ht⟩ := Option.isSome_iff_exists.mp (hdate htype)
    simp only [comparable, htype, ht]
    exact ⟨t, rfl⟩
  all_goals
    simp only [comparable, htype]
    exact ⟨_, rfl⟩

/-- A value of a kind is compared as one of its type. -/
theorem compares_value {k : SimpleKind} (hkind : a.kind = .simple k) {value : Value}
    (h : k.Takes value) : a.type.Compares (a.comparable value) := by
  have htype : a.type = k.type := by simp only [type, hkind]
  cases value with
  | null => exact absurd rfl h.ne_null
  | list items => exact absurd rfl (h.ne_list items)
  -- a text is of several kinds, and is a moment for one of them
  | string s =>
    refine compares_text (fun hdate => ?_) ?_ <;> rw [htype] at * <;>
      cases k <;> simp_all [SimpleKind.Takes, SimpleKind.kindError?, SimpleKind.type,
        SimpleKind.isStringLike, Option.isSome_iff_ne_none]
  | _ =>
    rw [htype]
    cases k <;> simp_all [SimpleKind.Takes, SimpleKind.kindError?, SimpleKind.type, comparable,
      AttributeType.Compares, Value.isNumber]

/-- An operand that fits the type of the attribute is compared as a value of it. -/
theorem compares_operand {operand : Literal} (hfits : operand.fits a.type = true)
    (hnull : operand ≠ .null) : a.type.Compares (a.comparable operand.toValue) := by
  cases operand with
  | null => exact absurd rfl hnull
  | string s =>
    refine compares_text (fun hdate => ?_) ?_
    · rwa [hdate] at hfits
    · cases htype : a.type <;> simp_all [Literal.fits]
  | _ =>
    cases htype : a.type <;> simp_all [Literal.fits, Literal.toValue, comparable,
      AttributeType.Compares, Value.isNumber]

end Attribute

/-! ## Checked values -/

section Checked

variable {fine : Issues → Prop}

namespace SubAttribute

/-- An element whose check is fine is of the kind, since a wrong one halts. -/
theorem takes_of_validateSingle (hfine : Issues.Hereditary fine) {a : SubAttribute} {element : Value}
    (h : fine (SubAttribute.validateSingle a element)) : a.kind.Takes element := by
  unfold validateSingle at h
  split at h
  · exact (hfine.not_fatal _ _ h).elim
  · rename_i herror
    exact herror

/-- A value of a sub-attribute whose check is fine consists of elements of its kind. -/
theorem takes_of_validate (hfine : Issues.Hereditary fine) {a : SubAttribute} {value : Value}
    (h : fine (SubAttribute.validate a value)) : a.HasForm a.kind.Takes value :=
  (AttributeOf.hasForm_of_validateWith hfine h).imp fun _ => takes_of_validateSingle hfine

end SubAttribute

namespace Attribute

variable {a : Attribute} {value element : Value}

/-- What is found in a record is fine just if what is found in each of its values is. -/
theorem validateSubs_iff (hfine : Issues.Hereditary fine) (subs : List SubAttribute)
    (fields : Record) (issues : Issues) :
    fine (validateSubs subs fields issues) ↔
      fine issues ∧ ∀ sub ∈ subs, ∀ value ∈ Record.get? fields sub.name.text,
        fine (SubAttribute.validate sub value) := by
  unfold validateSubs
  induction subs generalizing issues with
  | nil => simp
  | cons sub rest ih =>
    rw [List.foldl_cons, ih, List.forall_mem_cons]
    cases Record.get? fields sub.name.text with
    | none => simp
    | some value => simp [hfine.merge_iff, and_assoc]

/-- An element whose check is fine is of the kind, and so are the values in it. -/
theorem takes_of_validateSingle (hfine : Issues.Hereditary fine)
    (h : fine (Attribute.validateSingle a element)) : a.kind.Takes element := by
  unfold validateSingle at h
  split at h
  · rename_i k hkind
    rw [hkind]
    exact SubAttribute.takes_of_validateSingle hfine h
  · rename_i subs hkind
    rw [hkind]
    split at h
    · rename_i fields
      have hsubs := ((validateSubs_iff hfine subs.toList fields .empty).mp h).2
      exact ⟨fields, rfl, fun sub hsub value hvalue =>
        SubAttribute.takes_of_validate hfine (hsubs sub hsub value hvalue)⟩
    · -- no record where there should be one
      exact (hfine.not_fatal _ _ h).elim

/-- A value that passes its check consists of elements of its kind. -/
theorem takes_of_validate (h : (Attribute.validate a value).hasErrors = false) :
    a.HasForm a.kind.Takes value :=
  (AttributeOf.hasForm_of_validateWith Issues.hereditary_noErrors h).imp fun _ =>
    takes_of_validateSingle Issues.hereditary_noErrors

end Attribute

end Checked

/-- An element of a kind is no list. -/
theorem Kind.Takes.elements {k : Kind} {element : Value} (h : k.Takes element) :
    Filter.elements element = [element] := by
  cases k with
  | simple k =>
    cases element with
    | list items => exact absurd rfl (SimpleKind.Takes.ne_list h items)
    | _ => rfl
  | complex subs =>
    obtain ⟨fields, rfl, -⟩ := h
    rfl

/-- The elements that a filter looks at. -/
theorem Attribute.takes_of_mem_elements {a : Attribute} {value element : Value}
    (h : a.HasForm a.kind.Takes value) (hmem : element ∈ Filter.elements value) :
    element = .null ∨ a.kind.Takes element := by
  rcases h with rfl | hform
  · exact .inl (List.mem_singleton.mp hmem)
  · split at hform
    · obtain ⟨items, rfl, hitems⟩ := hform
      exact hitems element hmem
    · -- one element, which is no list
      rw [hform.elements, List.mem_singleton] at hmem
      exact .inr (hmem ▸ hform)

end Scim
