import Scim.Filter.Evaluation

/-!
  # What a filter compares

  The verdict of a filter comes down to binary operators, each applied to an element of an attribute
  and an operand.  `Filter.applications` lists them by the recursion of `Filter.holds`; it leaves none
  out where the verdict is known early, so it lists what is compared and more.

  Nothing else is compared: operators that agree with those of a filter in what they are applied to
  give the same verdict (`Filter.holds_withOperators`).
-/

namespace Scim

/-! ## Applications -/

/-- A binary operator applied to an element of an attribute and an operand. -/
structure Application where
  op : BinaryOperator
  attr : Attribute
  element : Value
  operand : Literal

namespace Application

/-- What the element is compared as. -/
def left (x : Application) : Value := x.attr.comparable x.element

/-- What the operand is compared as. -/
def right (x : Application) : Value := x.attr.comparable x.operand.toValue

/-- Whether the operator holds. -/
def holds (x : Application) : Bool := x.op.evaluate x.left x.right

end Application

/-- The applications of a comparison. -/
def AttributeFilter.applications (f : AttributeFilter) (scope : Scope) (data : Record) :
    List Application :=
  match f.comparison, scope.target? f with
  | .binary op operand, some (r, a) =>
    (Comparison.candidates (scope.value? data r)).map fun element => ⟨op, a, element, operand⟩
  | _, _ => []

/-- The applications of a filter, in order. -/
def Filter.applications : Filter → Scope → Record → List Application
  | .and left right, scope, data | .or left right, scope, data =>
    left.applications scope data ++ right.applications scope data
  | .not inner, scope, data | .group inner, scope, data => inner.applications scope data
  | .leaf f, scope, data => f.applications scope data
  | .complex attr inner, scope, data =>
    match scope.attribute? attr, scope.value? data attr with
    | some a, some value =>
      ((elements value).filterMap a.elementRecord?).flatMap
        (inner.applications (.element a.elementSubs))
    | _, _ => []

section

variable {scope : Scope} {data : Record} {x : Application}

/-- A comparison is applied to the candidates of its target. -/
theorem AttributeFilter.mem_applications {f : AttributeFilter} :
    x ∈ f.applications scope data ↔
      f.comparison = .binary x.op x.operand ∧ ∃ r, scope.target? f = some (r, x.attr) ∧
        x.element ∈ Comparison.candidates (scope.value? data r) := by
  unfold applications
  constructor
  · intro hx
    split at hx
    · -- the only way to compare anything: a binary operator with a target
      rename_i op operand r a hcomparison htarget
      obtain ⟨element, helement, rfl⟩ := List.mem_map.mp hx
      exact ⟨hcomparison, r, htarget, helement⟩
    · simp at hx
  · rintro ⟨hcomparison, r, htarget, helement⟩
    rw [hcomparison, htarget]
    exact List.mem_map.mpr ⟨x.element, helement, rfl⟩

/-- A filter in square brackets is applied to each element that it sees. -/
theorem Filter.mem_applications_complex {attr : Reference} {inner : Filter} :
    x ∈ (Filter.complex attr inner).applications scope data ↔
      ∃ a, scope.attribute? attr = some a ∧ ∃ value, scope.value? data attr = some value ∧
        ∃ element ∈ elements value, ∃ fields, a.elementRecord? element = some fields ∧
          x ∈ inner.applications (.element a.elementSubs) fields := by
  rw [applications]
  constructor
  · intro hx
    split at hx
    · rename_i a value hattr hvalue
      obtain ⟨fields, hfields, hx⟩ := List.mem_flatMap.mp hx
      obtain ⟨element, helement, hrecord⟩ := List.mem_filterMap.mp hfields
      exact ⟨a, hattr, value, hvalue, element, helement, fields, hrecord, hx⟩
    · simp at hx
  · rintro ⟨a, hattr, value, hvalue, element, helement, fields, hrecord, hx⟩
    rw [hattr, hvalue]
    exact List.mem_flatMap.mpr ⟨fields, List.mem_filterMap.mpr ⟨element, helement, hrecord⟩, hx⟩

end

/-! ## Other operators -/

/-- Tests that agree on the members of a list hold for some member both or neither. -/
theorem any_eq_of_forall_mem {α : Type} {list : List α} {test test' : α → Bool}
    (h : ∀ a ∈ list, test a = test' a) : list.any test = list.any test' := by
  rw [Bool.eq_iff_iff, List.any_eq_true, List.any_eq_true]
  exact exists_congr fun a => and_congr_right fun ha => by rw [h a ha]

section

variable (g : BinaryOperator → BinaryOperator)

/-- The comparison by another operator. -/
def Comparison.withOperators : Comparison → Comparison
  | .unary op => .unary op
  | .binary op operand => .binary (g op) operand

/-- The comparison of the same attribute by another operator. -/
def AttributeFilter.withOperators (f : AttributeFilter) : AttributeFilter :=
  ⟨f.attr, f.comparison.withOperators g⟩

/-- The same filter with other binary operators. -/
def Filter.withOperators : Filter → Filter
  | .and left right => .and left.withOperators right.withOperators
  | .or left right => .or left.withOperators right.withOperators
  | .not inner => .not inner.withOperators
  | .group inner => .group inner.withOperators
  | .leaf f => .leaf (f.withOperators g)
  | .complex attr inner => .complex attr inner.withOperators

end

variable {g : BinaryOperator → BinaryOperator} {scope : Scope} {data : Record}

/-- The verdict of one comparison depends on its operator only by what it says of the candidates. -/
theorem AttributeFilter.holds_withOperators {f : AttributeFilter}
    (h : ∀ x ∈ f.applications scope data, (g x.op).evaluate x.left x.right = x.holds) :
    (f.withOperators g).holds scope data = f.holds scope data := by
  obtain ⟨attr, comparison⟩ := f
  cases comparison with
  | unary op => rfl
  | binary op operand =>
    -- the target goes by the attribute, whatever the operator
    have hsame : scope.target? (withOperators g ⟨attr, .binary op operand⟩) =
        scope.target? ⟨attr, .binary op operand⟩ := rfl
    unfold holds
    rw [hsame]
    cases htarget : scope.target? ⟨attr, .binary op operand⟩ with
    | none => rfl
    | some target =>
      obtain ⟨r, a⟩ := target
      exact any_eq_of_forall_mem fun element helement => h ⟨op, a, element, operand⟩
        (mem_applications.mpr ⟨rfl, r, htarget, helement⟩)

/-- The verdict depends on the operators only by what they say where they are applied. -/
theorem Filter.holds_withOperators {f : Filter} (h : ∀ x ∈ f.applications scope data,
    (g x.op).evaluate x.left x.right = x.holds) :
    (f.withOperators g).holds scope data = f.holds scope data := by
  induction f generalizing scope data with
  | and left right ihleft ihright | or left right ihleft ihright =>
    have hleft := ihleft fun x hx => h x (List.mem_append_left _ hx)
    have hright := ihright fun x hx => h x (List.mem_append_right _ hx)
    simp only [withOperators, holds, hleft, hright]
  | not inner ih | group inner ih => simp only [withOperators, holds, ih h]
  | leaf f => exact AttributeFilter.holds_withOperators h
  | complex attr inner ih =>
    simp only [withOperators, holds]
    cases hattr : scope.attribute? attr with
    | none => rfl
    | some a =>
      cases hvalue : scope.value? data attr with
      | none => rfl
      | some value =>
        -- each element is looked at by itself
        refine any_eq_of_forall_mem fun fields hfields => ih fun x hx => h x ?_
        obtain ⟨element, helement, hrecord⟩ := List.mem_filterMap.mp hfields
        exact mem_applications_complex.mpr
          ⟨a, hattr, value, hvalue, element, helement, fields, hrecord, hx⟩

end Scim
