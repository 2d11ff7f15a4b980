import Scim.Attribute.Comparable
import Scim.Attribute.Conversion
import Scim.Attribute.Validation
import Scim.Proofs.Record.Alike

/-!
  # Attributes do not see the order and casing of keys

  A value is checked by its kind, its text and its sub-attributes, and these are looked up by name.
  So alike values have the same issues, and are converted to alike values, as long as the attribute's
  own validators and converters make no difference between them either (`Attribute.Blind`).
-/

namespace Scim

/-! ## An attribute's own functions -/

/-- Order and casing of keys make no difference to the validators and the converter for reading. -/
structure Characteristics.Blind (c : Characteristics) : Prop where
  validators : ∀ validator ∈ c.validators, Value.Blind validator
  deserializer : ∀ f ∈ c.deserializer, Value.KeepsAlike f

/-- Order and casing of keys make no difference to the functions of an attribute and of its
    sub-attributes. -/
structure Attribute.Blind (a : Attribute) : Prop where
  own : a.toCharacteristics.Blind
  subs : ∀ subs ∈ Attribute.subs? a, ∀ sub ∈ subs.toList, sub.toCharacteristics.Blind

/-! ## Checks -/

/-- The kind of a value does not depend on its keys. -/
theorem SimpleKind.kindError?_blind (k : SimpleKind) : Value.Blind k.kindError? := by
  intro v v' h
  cases h with
  | list | complex => cases k <;> rfl
  | _ => rfl

/-- All that matters is whether there is a value. -/
theorem Characteristics.validatePresence_congr (c : Characteristics) (direction : Direction)
    (inclusivity : Option Inclusivity) (ignoreIssuer : Bool) {v v' : Value}
    (h : v.isPresent = v'.isPresent) : c.validatePresence v direction inclusivity ignoreIssuer =
      c.validatePresence v' direction inclusivity ignoreIssuer := by
  simp only [validatePresence, h]

/-- Alike values are present or absent together, so presence checks find the same. -/
theorem Characteristics.validatePresence_blind (c : Characteristics) (direction : Direction)
    (inclusivity : Option Inclusivity) (ignoreIssuer : Bool) :
    Value.Blind (c.validatePresence · direction inclusivity ignoreIssuer) := by
  intro v v' h
  exact c.validatePresence_congr direction inclusivity ignoreIssuer h.isPresent_eq

/-- Alike lists have the same number of primary elements. -/
theorem primaryCount_eq {items items' : List Value} (h : List.Forall₂ Value.Alike items items') :
    primaryCount items = primaryCount items' := by
  induction h with
  | nil => rfl
  | @cons item item' _ _ hitem _ ih =>
    -- the key primary is looked up in any casing, so alike items are marked alike
    have hmark : Option.Rel Value.Alike (item.complex?.bind (Record.get? · "primary"))
        (item'.complex?.bind (Record.get? · "primary")) := by
      rcases hitem.complex?.none_or_some with ⟨hc, hc'⟩ | ⟨fields, fields', hc, hc', hfields⟩ <;>
        rw [hc, hc']
      · exact .none
      · exact hfields.get? "primary"
    unfold primaryCount at ih ⊢
    rw [List.countP_cons, List.countP_cons, ih]
    -- a mark is a truth value, and such a value is alike to itself only
    rcases hmark.none_or_some with ⟨hm, hm'⟩ | ⟨v, v', hm, hm', hv⟩ <;> simp only [hm, hm']
    cases hv <;> rfl

namespace AttributeOf

variable {κ : Type} {single : Value → Issues}

/-- The checks of two alike lists go along item by item, at the same indices. -/
theorem validateItems_eq (hsingle : Value.Blind single) {items items' : List Value}
    (h : List.Forall₂ Value.Alike items items') (issues : Issues) (index : Nat) :
    validateItems single issues index items = validateItems single issues index items' := by
  induction h generalizing issues index with
  | nil => rfl
  | cons hitem _ ih =>
    unfold validateItems
    rw [hitem.isNull_eq, hsingle hitem, ih]

/-- The check of a whole value is blind if the check of one element is. -/
theorem validateWith_blind {a : AttributeOf κ} (ha : a.toCharacteristics.Blind) (complex : Bool)
    (hsingle : Value.Blind single) : Value.Blind (a.validateWith complex single) := by
  intro v v' h
  -- whatever was found before, the further validators add the same
  have hvalidators : ∀ issues : Issues,
      a.validators.foldl (fun issues validator => issues.merge (validator v) .root) issues =
        a.validators.foldl (fun issues validator => issues.merge (validator v') .root) issues := by
    intro issues
    refine List.foldl_ext _ _ _ fun issues validator hvalidator => ?_
    rw [ha.validators validator hvalidator h]
  unfold validateWith
  simp only [hvalidators, h.isNull_eq, hsingle h]
  cases h with
  | list h => simp only [validateItems_eq hsingle h, primaryCount_eq h]
  | _ => rfl

end AttributeOf

namespace SubAttribute

theorem validateSingle_blind (a : SubAttribute) : Value.Blind (SubAttribute.validateSingle a) := by
  intro v v' h
  unfold validateSingle
  rw [a.kind.kindError?_blind h]
  cases h <;> rfl

theorem validate_blind {a : SubAttribute} (ha : a.toCharacteristics.Blind) :
    Value.Blind (SubAttribute.validate a) :=
  AttributeOf.validateWith_blind ha false (validateSingle_blind a)

end SubAttribute

namespace Attribute

/-- Alike records have values for the same sub-attributes, and these are alike. -/
theorem validateSubs_eq {subs : List SubAttribute} (hsubs : ∀ sub ∈ subs, sub.toCharacteristics.Blind)
    {fields fields' : Record} (h : fields.Alike fields') (issues : Issues) :
    validateSubs subs fields issues = validateSubs subs fields' issues := by
  refine List.foldl_ext _ _ _ fun issues sub hsub => ?_
  rcases (h.get? sub.name.text).none_or_some with ⟨hr, hr'⟩ | ⟨v, v', hr, hr', hv⟩ <;>
    simp only [hr, hr']
  rw [SubAttribute.validate_blind (hsubs sub hsub) hv]

theorem validateSingle_blind {a : Attribute} (ha : Attribute.Blind a) :
    Value.Blind (Attribute.validateSingle a) := by
  intro v v' h
  unfold validateSingle
  split
  · exact SubAttribute.validateSingle_blind _ h
  · rename_i subs hkind
    have hsubs := ha.subs subs (by simp only [subs?, hkind, Option.mem_def])
    cases h with
    | complex h => exact validateSubs_eq hsubs h .empty
    | _ => rfl

/-- Alike values have the same issues. -/
theorem validate_blind {a : Attribute} (ha : Attribute.Blind a) : Value.Blind (Attribute.validate a) :=
  AttributeOf.validateWith_blind ha.own _ (validateSingle_blind ha)

end Attribute

/-! ## Comparison -/

/-- What is compared in place of alike values is alike. -/
theorem Attribute.comparable_keepsAlike (a : Attribute) : Value.KeepsAlike a.comparable := by
  intro v v' h
  cases h with
  -- only a text is replaced, by the date-time or the folded text that it stands for
  | string s =>
    simp only [comparable]
    split
    · split <;> exact .scalar rfl rfl
    · exact .scalar rfl rfl
    · exact .scalar rfl rfl
    · exact .scalar rfl rfl
  | list h => exact .list h
  | complex h => exact h
  | _ => exact .scalar rfl rfl

/-! ## Conversion -/

/-- What a set of attributes makes of two records, each attribute from what lies under its name. -/
theorem AttributeSet.filterMap_alike {κ : Type} (attrs : AttributeSet κ)
    {f f' : AttributeOf κ → Option (String × Value)}
    (hname : ∀ a ∈ attrs.toList, ∀ entry ∈ f a, entry.1 = a.name.text)
    (h : ∀ a ∈ attrs.toList, Option.Rel Record.EntryAlike (f a) (f' a)) :
    Record.Alike (attrs.toList.filterMap f) (attrs.toList.filterMap f') := by
  refine Record.alike_of_forall₂ ?_ ?_
  · exact Record.distinct_filterMap attrs.distinct fun a ha entry hentry => by
      rw [hname a ha entry hentry, Name.key]
  · refine List.rel_filterMap (R := fun a b => a = b ∧ a ∈ attrs.toList) ?_ ?_
    · rintro a _ ⟨rfl, ha⟩
      exact h a ha
    · exact List.forall₂_same.mpr fun a ha => ⟨rfl, ha⟩

namespace AttributeOf

variable {κ : Type}

/-- Alike records are converted to alike records, one attribute after the other. -/
theorem convertRecord_alike {attrs : AttributeSet κ} {convert : AttributeOf κ → Value → Value}
    (hconvert : ∀ a ∈ attrs.toList, Value.KeepsAlike (convert a)) {fields fields' : Record}
    (h : fields.Alike fields') :
    Record.Alike (convertRecord attrs.toList convert fields)
      (convertRecord attrs.toList convert fields') := by
  refine attrs.filterMap_alike (fun a ha entry hentry => ?_) fun a ha => ?_
  · obtain ⟨value, -, rfl⟩ := Option.map_eq_some_iff.mp hentry
    rfl
  · rcases (h.get? a.name.text).none_or_some with ⟨hr, hr'⟩ | ⟨v, v', hr, hr', hv⟩ <;> rw [hr, hr']
    · exact .none
    · exact .some ⟨rfl, hconvert a ha hv⟩

/-- Alike values are converted to alike values if the elements and the attribute's own converter
    are. -/
theorem convertWith_keepsAlike (a : AttributeOf κ) {single : Value → Value}
    (hsingle : Value.KeepsAlike single) {own : Option (Value → Value)}
    (hown : ∀ f ∈ own, Value.KeepsAlike f) : Value.KeepsAlike (a.convertWith single own) := by
  intro v v' h
  -- the attribute's own converter is applied last, to values that are alike without it
  have hplain : (a.convertWith single none v).Alike (a.convertWith single none v') := by
    unfold convertWith
    cases h with
    | list h =>
      dsimp only
      split
      · exact .list (List.rel_map (fun _ _ hitem => hsingle hitem) h)
      · exact hsingle (.list h)
    | complex h => exact hsingle h
    | _ => exact hsingle (.scalar rfl rfl)
  cases own with
  | none => exact hplain
  | some f => exact hown f rfl hplain

end AttributeOf

/-- Only texts are read in a special way, and alike texts are equal. -/
theorem SimpleKind.deserialize_keepsAlike (k : SimpleKind) : Value.KeepsAlike k.deserialize := by
  intro v v' h
  cases h with
  | string s =>
    simp only [deserialize]
    split
    · split <;> exact .scalar rfl rfl
    · exact .scalar rfl rfl
    · exact .scalar rfl rfl
  | list h => cases k <;> exact .list h
  | complex h => cases k <;> exact h
  | _ => cases k <;> exact .scalar rfl rfl

/-- Alike values of a sub-attribute are read as alike values. -/
theorem SubAttribute.deserialize_keepsAlike {a : SubAttribute} (ha : a.toCharacteristics.Blind) :
    Value.KeepsAlike (SubAttribute.deserialize a) :=
  a.convertWith_keepsAlike a.kind.deserialize_keepsAlike ha.deserializer

/-- Complex values are read sub-attribute by sub-attribute, and others are left alone. -/
theorem Kind.deserialize_complex_keepsAlike {subs : AttributeSet SimpleKind}
    (h : ∀ sub ∈ subs.toList, Value.KeepsAlike (SubAttribute.deserialize sub)) :
    Value.KeepsAlike (Kind.deserialize (.complex subs)) := by
  intro v v' halike
  cases halike with
  | complex hfields => exact AttributeOf.convertRecord_alike h hfields
  | list hitems => exact .list hitems
  | _ => exact .scalar rfl rfl

namespace Attribute

/-- The kind reads alike values as alike values, be it simple or complex. -/
theorem kind_deserialize_keepsAlike {a : Attribute} (ha : Attribute.Blind a) :
    Value.KeepsAlike a.kind.deserialize := by
  intro v v' h
  cases hkind : a.kind with
  | simple k => exact k.deserialize_keepsAlike h
  | complex subs =>
    have hsubs := ha.subs subs (by simp only [subs?, hkind, Option.mem_def])
    exact Kind.deserialize_complex_keepsAlike
      (fun sub hsub => SubAttribute.deserialize_keepsAlike (hsubs sub hsub)) h

/-- Alike values are read as alike values. -/
theorem deserialize_keepsAlike {a : Attribute} (ha : Attribute.Blind a) :
    Value.KeepsAlike (Attribute.deserialize a) :=
  a.convertWith_keepsAlike (kind_deserialize_keepsAlike ha) ha.own.deserializer

end Attribute

end Scim
