import Scim.Proofs.Attribute.Kinds

/-!
  # What further validators are asked

  The validators that an attribute has beside its declaration come last, and only where nothing has
  halted (`AttributeOf.validateWith_eq`).  A value of the wrong kind halts, whatever the depth at which it
  lies, and what halts stays when issues are merged.  So nothing halts in a value just if it is of the
  kind (`Issues.hereditary_canProceed` with `Attribute.takes_of_validateSingle`), and the validators are
  asked about such values only.

  What a validator says of any other value is therefore never heard: another that agrees with it on the
  values of the kind may take its place (`Attribute.Revised`), in the attribute as well as in its
  sub-attributes, and the check goes on to find the same (`Attribute.validate_revised`).
-/

namespace Scim

/-! ## Validators apart from the rest -/

namespace AttributeOf

variable {κ : Type} {single : Value → Issues}

/-- The attribute without further validators. -/
def bare (a : AttributeOf κ) : AttributeOf κ := { a with validators := [] }

/-- Further validators come after the rest of the check, unless there is nothing to check or something
    halts. -/
theorem validateWith_eq (a : AttributeOf κ) (complex : Bool) (value : Value) :
    a.validateWith complex single value =
      if value.isNull = false ∧ (a.bare.validateWith complex single value).canProceed = true then
        a.validators.foldl (fun issues validator => issues.merge (validator value) .root)
          (a.bare.validateWith complex single value)
      else a.bare.validateWith complex single value := by
  have hnone : a.bare.validators = [] := rfl
  have hsame : a.bare.multiValued = a.multiValued := rfl
  simp only [validateWith, hnone, hsame, List.foldl_nil, ite_self]
  -- by cases on what the check asks of the value, before it looks at elements
  cases hnull : value.isNull with
  | true => simp
  | false =>
    cases a.multiValued with
    | false => simp
    | true =>
      cases value with
      | list items => simp
      | _ => simp

/-- Validators may be exchanged for others that say the same of the value. -/
theorem foldl_validators_congr {validators validators' : List (Value → Issues)} {value : Value}
    (h : List.Forall₂ (fun validator validator' => validator' value = validator value) validators
      validators') (issues : Issues) :
    validators'.foldl (fun issues validator => issues.merge (validator value) .root) issues =
      validators.foldl (fun issues validator => issues.merge (validator value) .root) issues := by
  induction h generalizing issues with
  | nil => rfl
  | cons hvalue _ ih => rw [List.foldl_cons, List.foldl_cons, hvalue, ih]

/-- There is a value, and each element of it is of the kind. -/
def Suits (a : AttributeOf κ) (takes : κ → Value → Prop) (value : Value) : Prop :=
  value ≠ .null ∧ a.HasForm (takes a.kind) value

/-- Each validator of the second attribute agrees with its counterpart on the values that suit the
    first. -/
def Agree (takes : κ → Value → Prop) (a a' : AttributeOf κ) : Prop :=
  List.Forall₂ (fun validator validator' => ∀ value, a.Suits takes value →
    validator' value = validator value) a.validators a'.validators

/-- Validators that agree on values of the kind make no difference to the check. -/
theorem validateWith_congr {takes : κ → Value → Prop} {a a' : AttributeOf κ}
    (hmany : a'.multiValued = a.multiValued) (hagree : Agree takes a a')
    (hkind : ∀ element, (single element).canProceed = true → takes a.kind element) (complex : Bool)
    (value : Value) : a'.validateWith complex single value = a.validateWith complex single value := by
  -- apart from validators the two are the same
  have hbare : a'.bare.validateWith complex single value =
      a.bare.validateWith complex single value := by
    simp only [validateWith, bare, hmany]
    rfl
  rw [validateWith_eq a', validateWith_eq a, hbare]
  split
  · rename_i hgo
    -- where nothing halts, every element is of the kind
    have hform : a.HasForm (fun element => (single element).canProceed = true) value :=
      hasForm_of_validateWith (a := a.bare) Issues.hereditary_canProceed hgo.2
    have hsuits : a.Suits takes value := by
      refine ⟨fun hnull => ?_, hform.imp hkind⟩
      rw [Value.isNull_iff.mpr hnull] at hgo
      cases hgo.1
    exact foldl_validators_congr (hagree.imp fun _ _ h => h value hsuits) _
  · rfl

end AttributeOf

/-! ## Other validators -/

/-- A sub-attribute with other validators, which agree with the first ones on the values of its kind. -/
structure SubAttribute.Revised (a a' : SubAttribute) : Prop where
  same : a' = { a with validators := a'.validators }
  agree : AttributeOf.Agree SimpleKind.Takes a a'

/-- A kind whose sub-attributes have other validators. -/
inductive Kind.Revised : Kind → Kind → Prop
  | simple (k : SimpleKind) : Revised (.simple k) (.simple k)
  | complex {subs subs' : AttributeSet SimpleKind} :
    List.Forall₂ SubAttribute.Revised subs.toList subs'.toList →
      Revised (.complex subs) (.complex subs')

/-- A revised kind is the same simple one, or complex with revised sub-attributes. -/
theorem Kind.Revised.same_shape {k k' : Kind} (h : Kind.Revised k k') :
    (∃ simple, k = .simple simple ∧ k' = .simple simple) ∨
      ∃ subs subs', k = .complex subs ∧ k' = .complex subs' ∧
        List.Forall₂ SubAttribute.Revised subs.toList subs'.toList := by
  cases h with
  | simple k => exact .inl ⟨k, rfl, rfl⟩
  | complex hsubs => exact .inr ⟨_, _, rfl, rfl, hsubs⟩

/-- An attribute with other validators, and so its sub-attributes, which agree with the first ones on the
    values of the kind. -/
structure Attribute.Revised (a a' : Attribute) : Prop where
  same : a' = { a with validators := a'.validators, kind := a'.kind }
  kind : Kind.Revised a.kind a'.kind
  agree : AttributeOf.Agree Kind.Takes a a'

/-- A sub-attribute with other validators finds the same in every value. -/
theorem SubAttribute.validate_of_revised {a a' : SubAttribute} (h : SubAttribute.Revised a a')
    (value : Value) : SubAttribute.validate a' value = SubAttribute.validate a value := by
  have hsingle : SubAttribute.validateSingle a' = SubAttribute.validateSingle a := by
    rw [h.same]
    rfl
  have hmany : a'.multiValued = a.multiValued := by rw [h.same]
  rw [validate, validate, hsingle]
  exact AttributeOf.validateWith_congr hmany h.agree
    (fun _ => takes_of_validateSingle Issues.hereditary_canProceed) false value

namespace Attribute

/-- Revised sub-attributes find the same in every record, one after the other. -/
theorem validateSubs_revised {subs subs' : List SubAttribute}
    (h : List.Forall₂ SubAttribute.Revised subs subs') (fields : Record) (issues : Issues) :
    validateSubs subs' fields issues = validateSubs subs fields issues := by
  unfold validateSubs
  induction h generalizing issues with
  | nil => rfl
  | @cons sub sub' _ _ hsub _ ih =>
    have hname : sub'.name = sub.name := by rw [hsub.same]
    rw [List.foldl_cons, List.foldl_cons, ih, hname]
    simp only [SubAttribute.validate_of_revised hsub]

/-- A revised attribute finds the same in every element. -/
theorem validateSingle_revised {a a' : Attribute} (h : Revised a a') (element : Value) :
    Attribute.validateSingle a' element = Attribute.validateSingle a element := by
  rcases h.kind.same_shape with ⟨k, hk, hk'⟩ | ⟨subs, subs', hk, hk', hsubs⟩
  · simp only [validateSingle, hk, hk']
    rw [h.same]
    rfl
  · simp only [validateSingle, hk, hk', validateSubs_revised hsubs]

theorem isComplex_revised {a a' : Attribute} (h : Revised a a') : a'.isComplex = a.isComplex := by
  rcases h.kind.same_shape with ⟨k, hk, hk'⟩ | ⟨subs, subs', hk, hk', -⟩
  · simp only [isComplex, hk, hk']
  · simp only [isComplex, hk, hk']

/-- Validators are heard on values of the kind only: with others that agree on these, every value has the
    same issues. -/
theorem validate_revised {a a' : Attribute} (h : Revised a a') (value : Value) :
    Attribute.validate a' value = Attribute.validate a value := by
  have hsingle : Attribute.validateSingle a' = Attribute.validateSingle a :=
    funext (validateSingle_revised h)
  have hmany : a'.multiValued = a.multiValued := by rw [h.same]
  rw [validate, validate, hsingle, isComplex_revised h]
  exact AttributeOf.validateWith_congr hmany h.agree
    (fun _ => takes_of_validateSingle Issues.hereditary_canProceed) _ value

end Attribute

/-- A check of positive numbers; of what is no number it says something else. -/
def positive (otherwise : Issues) : Value → Issues
  | .integer n => if 0 < n then .empty else .mild (.custom "must be positive") .root
  | _ => otherwise

/-- Rows, each with a positive number of seats. -/
def seatRows (otherwise : Issues) : Attribute where
  name := ⟨"rows", by decide +kernel⟩
  multiValued := true
  kind := .complex
    { toList :=
        [{ name := ⟨"seats", by decide +kernel⟩, kind := .integer, validators := [positive otherwise] }]
      distinct := by simp [AttributeOf.keys] }

/-- It does not matter what the check of positive numbers says of a text. -/
theorem Attribute.validate_revised_seatRows :
    Attribute.Revised (seatRows .empty) (seatRows (.fatal (.custom "no number") .root)) ∧
      ∀ value, Attribute.validate (seatRows (.fatal (.custom "no number") .root)) value =
        Attribute.validate (seatRows .empty) value := by
  have hrevised : ∀ otherwise, Attribute.Revised (seatRows .empty) (seatRows otherwise) := by
    intro otherwise
    refine ⟨rfl, .complex (.cons ⟨rfl, .cons (fun value hsuits => ?_) .nil⟩ .nil), .nil⟩
    have hinteger : SimpleKind.integer.Takes value := (hsuits.2.single rfl).resolve_left hsuits.1
    cases value with
    | integer n => rfl
    | _ => cases hinteger
  exact ⟨hrevised _, fun value => Attribute.validate_revised (hrevised _) value⟩

/-- A number that is not positive is reported, and a text for its kind only. -/
example : (Attribute.validate (seatRows .empty) (.list [.complex [("seats", .integer 0)]])).errors =
      [([.index 0, .name "seats"], [.custom "must be positive"])] ∧
    (Attribute.validate (seatRows .empty) (.list [.complex [("seats", .string "x")]])).errors =
      [([.index 0, .name "seats"], [.badType "integer" "string"])] := by
  decide +kernel

end Scim
