import Scim.Filter.Evaluation
import Scim.Proofs.Attribute.Alike

/-!
  # Filters do not see the order and casing of keys

  A filter reads values by key, and compares them with the operators that it carries.  Those of the
  protocol make no difference between alike values (`Comparison.blind_of_isStandard`): a complex value
  or a list is only asked whether there is anything in it.  So a filter holds for a resource just if
  it does for any that is alike (`Filter.evaluate_eq`), as long as further operators make no
  difference either (`Filter.Blind`).
-/

namespace Scim

/-! ## Operators -/

/-- The operator is one of the protocol. -/
def Comparison.IsStandard : Comparison → Prop
  | .unary op => op ∈ UnaryOperator.standard
  | .binary op _ => op ∈ BinaryOperator.standard

/-- The operator makes no difference between alike values. -/
def Comparison.Blind : Comparison → Prop
  | .unary op => Value.Blind op.evaluate
  | .binary op _ => ∀ operand, Value.Blind (op.evaluate · operand)

/-- Operators that are not of the protocol make no difference between alike values. -/
def Filter.Blind (f : Filter) : Prop :=
  ∀ leaf ∈ f.leaves, leaf.comparison.IsStandard ∨ leaf.comparison.Blind

/-- Lists and complex values have no order, whatever their keys. -/
theorem Value.compare_blind (operand : Value) : Blind (compare · operand) := by
  intro v v' h
  cases h with
  | list | complex => cases operand <;> rfl
  | _ => rfl

/-- An operator on texts makes no difference between alike values. -/
theorem BinaryOperator.onTexts_blind (token : String) (test : List Char → List Char → Bool)
    (operand : Value) : Value.Blind ((onTexts token test).evaluate · operand) := by
  intro v v' h
  cases h with
  | list | complex => cases operand <;> rfl
  | _ => rfl

/-- An operator on the order of values makes no difference between alike values. -/
theorem BinaryOperator.onOrder_blind (token : String) (test : Ordering → Bool) (operand : Value) :
    Value.Blind ((onOrder token test).evaluate · operand) := by
  intro v v' h
  have hcompare := Value.compare_blind operand h
  cases h with
  | list | complex => exact congrArg (Option.any test) hcompare
  | _ => rfl

/-- The operators of the protocol make no difference between alike values. -/
theorem Comparison.blind_of_isStandard {c : Comparison} (h : c.IsStandard) : c.Blind := by
  cases c with
  | unary op =>
    obtain rfl : op = UnaryOperator.present := List.mem_singleton.mp h
    exact fun halike => halike.isPresent_eq
  | binary op operand =>
    intro operand v v' halike
    simp only [IsStandard, BinaryOperator.standard, List.mem_cons, List.not_mem_nil, or_false] at h
    -- equality, the tests of texts, and the four on the order
    rcases h with rfl | rfl | rfl | rfl | rfl | rfl | rfl | rfl | rfl
    · exact congrArg (· == some .eq) (Value.compare_blind operand halike)
    · exact congrArg (· != some .eq) (Value.compare_blind operand halike)
    · exact BinaryOperator.onTexts_blind _ _ operand halike
    · exact BinaryOperator.onTexts_blind _ _ operand halike
    · exact BinaryOperator.onTexts_blind _ _ operand halike
    · exact BinaryOperator.onOrder_blind _ _ operand halike
    · exact BinaryOperator.onOrder_blind _ _ operand halike
    · exact BinaryOperator.onOrder_blind _ _ operand halike
    · exact BinaryOperator.onOrder_blind _ _ operand halike

/-- A comparison holds for alike values of an attribute, or for neither. -/
theorem Comparison.holds_blind {c : Comparison} (hc : c.IsStandard ∨ c.Blind) (a : Attribute) :
    Value.Blind (c.holds a) := by
  have hblind : c.Blind := hc.elim blind_of_isStandard id
  intro v v' h
  cases c with
  | unary op => exact hblind h
  | binary op operand => exact hblind _ (a.comparable_keepsAlike h)

/-! ## Scopes -/

/-- A reference finds alike values in alike records, or nothing in both. -/
theorem Scope.rel_value? (scope : Scope) {data data' : Record} (h : data.Alike data')
    (r : Reference) : Option.Rel Value.Alike (scope.value? data r) (scope.value? data' r) := by
  cases scope with
  | resource schema =>
    simp only [value?, Option.bind_eq_bind]
    cases schema.resolve? r with
    | none => exact .none
    | some q => exact h.getAt? (.ofQualified q) Value.alike_null
  | element subs => exact h.get? r.attr.text

/-- An element is seen as alike records. -/
theorem Attribute.rel_elementRecord? (a : Attribute) {v v' : Value} (h : v.Alike v') :
    Option.Rel Record.Alike (a.elementRecord? v) (a.elementRecord? v') := by
  unfold elementRecord?
  split
  · exact h.complex?
  · rw [h.isNull_eq]
    split
    · exact .none
    · refine .some (Record.alike_of_forall₂ ?_ (.cons ⟨rfl, h⟩ .nil))
      simp [Record.single, Record.Distinct]

/-! ## Filters -/

/-- Alike values have alike values to be compared. -/
theorem Comparison.forall₂_candidates {value value' : Option Value}
    (h : Option.Rel Value.Alike value value') :
    List.Forall₂ Value.Alike (candidates value) (candidates value') := by
  rcases h.none_or_some with ⟨rfl, rfl⟩ | ⟨v, v', rfl, rfl, halike⟩
  · exact .cons Value.alike_null .nil
  · cases halike with
    | list hitems =>
      -- an empty list is compared as null
      cases hitems with
      | nil => exact .cons Value.alike_null .nil
      | cons hitem hrest => exact .cons hitem hrest
    | complex hfields => exact .cons hfields .nil
    | _ => exact .cons (.scalar rfl rfl) .nil

/-- Alike values have alike elements, in order. -/
theorem Filter.forall₂_elements {v v' : Value} (h : v.Alike v') :
    List.Forall₂ Value.Alike (elements v) (elements v') := by
  cases h with
  | list h => exact h
  | complex h => exact .cons h .nil
  | _ => exact .cons (.scalar rfl rfl) .nil

/-- A test that sees no difference between the members of two lists holds for some member of both. -/
theorem any_eq_of_forall₂ {α β : Type} {R : α → β → Prop} {test : α → Bool} {test' : β → Bool}
    {list : List α} {list' : List β} (h : List.Forall₂ R list list')
    (htest : ∀ a b, R a b → test a = test' b) : list.any test = list'.any test' := by
  induction h with
  | nil => rfl
  | cons hhead _ ih => rw [List.any_cons, List.any_cons, htest _ _ hhead, ih]

/-- A comparison of an attribute holds in alike records, or in neither. -/
theorem AttributeFilter.holds_eq {f : AttributeFilter}
    (hf : f.comparison.IsStandard ∨ f.comparison.Blind) (scope : Scope) {data data' : Record}
    (h : data.Alike data') : f.holds scope data = f.holds scope data' := by
  unfold holds
  cases scope.target? f with
  | none => rfl
  | some target =>
    obtain ⟨r, a⟩ := target
    exact any_eq_of_forall₂ (Comparison.forall₂_candidates (scope.rel_value? h r)) fun _ _ halike =>
      Comparison.holds_blind hf a halike

/-- A filter holds for alike resources or elements, or for neither. -/
theorem Filter.holds_eq {f : Filter} (hf : f.Blind) (scope : Scope) {data data' : Record}
    (h : data.Alike data') : f.holds scope data = f.holds scope data' := by
  induction f generalizing scope data data' with
  | and left right ihleft ihright | or left right ihleft ihright =>
    have hleft : left.Blind := fun leaf hleaf => hf leaf (List.mem_append_left _ hleaf)
    have hright : right.Blind := fun leaf hleaf => hf leaf (List.mem_append_right _ hleaf)
    simp only [holds, ihleft hleft scope h, ihright hright scope h]
  | not inner ih | group inner ih => simp only [holds, ih hf scope h]
  | leaf f => exact AttributeFilter.holds_eq (hf f List.mem_cons_self) scope h
  | complex attr inner ih =>
    simp only [holds]
    cases scope.attribute? attr with
    | none => rfl
    | some a =>
      rcases (scope.rel_value? h attr).none_or_some with ⟨hv, hv'⟩ | ⟨v, v', hv, hv', halike⟩ <;>
        simp only [hv, hv']
      -- each element is looked at by itself
      have helements := List.rel_filterMap (fun _ _ hitem => a.rel_elementRecord? hitem)
        (forall₂_elements halike)
      exact any_eq_of_forall₂ helements fun _ _ hfields => ih hf (.element a.elementSubs) hfields

/-- Whether a resource matches a filter does not depend on the order and casing of its keys. -/
theorem Filter.evaluate_eq {f : Filter} (hf : f.Blind) {r r' : Record} (h : r.Alike r') (s : Schema) :
    f.evaluate r s = f.evaluate r' s :=
  Filter.holds_eq hf (.resource s) h

end Scim
