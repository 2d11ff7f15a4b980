import Scim.Proofs.DateTime
import Scim.Proofs.Json.Number
import Scim.Proofs.Record.Alike
import Scim.Value.Equality

/-!
  # Alike values are equal

  Equality of values looks keys up, so it sees neither the order of entries nor the casing of keys.
  Alike values differ in nothing else, but they are equal only if their scalars equal themselves: a
  decimal that is no number does not.

  `Value.Throughout` says of a value that all scalars in it, at any depth, are of some sort.
-/

namespace Scim

/-! ## Scalars inside a value -/

/-- All scalars in the value have a property. -/
inductive Value.Throughout (P : Value → Prop) : Value → Prop
  | scalar {value : Value} (hcomplex : value.complex? = none) (hlist : value.list? = none)
    (h : P value) : Value.Throughout P value
  | list {items : List Value} (h : ∀ item ∈ items, Value.Throughout P item) :
    Value.Throughout P (.list items)
  | complex {fields : Record} (h : ∀ entry ∈ fields, Value.Throughout P entry.2) :
    Value.Throughout P (.complex fields)

/-- All scalars in the record have a property. -/
def Record.Throughout (P : Value → Prop) (r : Record) : Prop := (Value.complex r).Throughout P

namespace Value

variable {P : Value → Prop} {v v' : Value}

/-- Throughout a list is throughout its items. -/
theorem throughout_list_iff {items : List Value} :
    Throughout P (.list items) ↔ ∀ item ∈ items, Throughout P item := by
  constructor
  · intro h
    cases h with
    | scalar hcomplex hlist => nomatch hlist
    | list h => exact h
  · exact .list

/-- Throughout a record is throughout its entries. -/
theorem throughout_complex_iff {fields : Record} :
    Throughout P (.complex fields) ↔ ∀ entry ∈ fields, Throughout P entry.2 := by
  constructor
  · intro h
    cases h with
    | scalar hcomplex hlist => nomatch hcomplex
    | complex h => exact h
  · exact .complex

/-- A scalar has the property itself. -/
theorem Throughout.of_scalar (h : Throughout P v) (hcomplex : v.complex? = none)
    (hlist : v.list? = none) : P v := by
  cases h with
  | scalar _ _ h => exact h
  | list => nomatch hlist
  | complex => nomatch hcomplex

/-- What is found in a record has it throughout. -/
theorem Throughout.get? {r : Record} (h : r.Throughout P) {key : String}
    (hget : r.get? key = some v) : v.Throughout P := by
  obtain ⟨stored, hmem⟩ := Record.get?_mem hget
  exact throughout_complex_iff.mp h _ hmem

/-! ## Equality -/

/-- The value is no decimal that is no number. -/
def IsNumeric (v : Value) : Prop := ∀ d, v = .decimal d → d.isNaN = false

end Value

/-- Each entry of a record has an equal value under its key in the other one. -/
theorem Record.within_iff {r r' : Record} : Record.within r r' = true ↔
    ∀ entry ∈ r, ∃ value, r'.get? entry.1 = some value ∧ entry.2.same value = true := by
  induction r with
  | nil => simp [Record.within]
  | cons entry r ih =>
    rw [Record.within, Bool.and_eq_true, ih, List.forall_mem_cons]
    refine and_congr_left fun _ => ?_
    cases r'.get? entry.1 <;> simp

namespace Value

variable {v v' : Value}

/-- Lists are equal item by item. -/
theorem sameItems_of_forall₂ {items items' : List Value} (h : List.Forall₂ Alike items items')
    (hsame : ∀ item ∈ items, ∀ {item' : Value}, item.Alike item' → item'.same item = true) :
    sameItems items' items = true := by
  induction h with
  | nil => rfl
  | cons hitem _ ih =>
    obtain ⟨hhead, htail⟩ := List.forall_mem_cons.mp hsame
    rw [sameItems, hhead hitem, ih htail]
    rfl

/-- The entries of one record have equal values in an alike one. -/
theorem within_of_alike {fields fields' : Record} (h : fields.Alike fields')
    (hsame : ∀ entry ∈ fields, ∀ {v' : Value}, entry.2.Alike v' → v'.same entry.2 = true) :
    Record.within fields' fields = true := by
  refine Record.within_iff.mpr fun entry hentry => ?_
  have hstored := h.distinct_right.get?_of_mem hentry
  -- the same key leads to an alike value in the other record
  rcases (h.get? entry.1).none_or_some with ⟨-, hnone⟩ | ⟨value, value', hget, hget', halike⟩
  · nomatch hstored.symm.trans hnone
  · obtain rfl := Option.some.inj (hget'.symm.trans hstored)
    obtain ⟨stored, hmem⟩ := Record.get?_mem hget
    exact ⟨value, hget, hsame _ hmem halike⟩

/-- Alike values are equal, if all scalars in them equal themselves. -/
theorem Alike.same_of_throughout (h : v.Alike v') (hnumeric : v.Throughout IsNumeric) :
    v'.same v = true := by
  -- on the value whose scalars equal themselves; the other one has the same shape
  induction hnumeric generalizing v' with
  | scalar hcomplex hlist hnumeric =>
    cases h with
    | null => rfl
    | boolean b => exact beq_self_eq_true b
    | integer n => exact beq_self_eq_true n
    | decimal d => exact Decimal.same_self (hnumeric d rfl)
    | string s => exact beq_self_eq_true s
    | dateTime t => exact t.same_self
    | list => nomatch hlist
    | complex => nomatch hcomplex
  | list hitems ih =>
    cases h with
    | list h => exact sameItems_of_forall₂ h fun item hitem _ halike => ih item hitem halike
  | @complex fields hfields ih =>
    cases h with
    | @complex _ fields' h =>
      show (fields'.length == fields.length && Record.within fields' fields) = true
      rw [h.length_eq, beq_self_eq_true, Bool.true_and]
      exact within_of_alike h fun entry hentry _ halike => ih entry hentry halike

end Value

/-- Alike records are equal, if all scalars in them equal themselves. -/
theorem Record.Alike.same_of_throughout {r r' : Record} (h : r.Alike r')
    (hnumeric : r.Throughout Value.IsNumeric) : r'.same r = true :=
  Value.Alike.same_of_throughout h hnumeric

end Scim
