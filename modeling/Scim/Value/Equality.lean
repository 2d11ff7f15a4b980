import Scim.Value.Basic

/-!
  # Equality of values

  Decimals are equal by value and date-times by moment.  Records are equal when they have equally
  many entries and each entry of the one has an equal value under the same key, up to case, in the
  other: neither the order nor the casing of the keys matters.  Integers never equal decimals.
-/

namespace Scim

mutual

/-- Equality of values. -/
def Value.same : Value → Value → Bool
  | .null, .null => true
  | .boolean a, .boolean b => a == b
  | .integer a, .integer b => a == b
  | .decimal a, .decimal b => a.same b
  | .string a, .string b => a == b
  | .dateTime a, .dateTime b => a.same b
  | .complex a, .complex b => a.length == b.length && Record.within a b
  | .list a, .list b => Value.sameItems a b
  | _, _ => false

/-- Equality of lists, item by item. -/
def Value.sameItems : List Value → List Value → Bool
  | [], [] => true
  | a :: as, b :: bs => a.same b && Value.sameItems as bs
  | _, _ => false

/-- Whether every entry of the first record has an equal value in the second. -/
def Record.within : List (String × Value) → List (String × Value) → Bool
  | [], _ => true
  | (k, v) :: rest, r =>
    (match Record.get? r k with
      | some w => v.same w
      | none => false) && Record.within rest r

end

/-- Equality of records. -/
def Record.same (a b : Record) : Bool := a.length == b.length && Record.within a b

end Scim
