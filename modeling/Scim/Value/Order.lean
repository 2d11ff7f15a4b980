import Scim.Value.Basic

/-!
  # Order of values

  Values of one kind are ordered, and integers and decimals among each other.  Strings are ordered
  by code points, booleans with `false` first, date-times by moment; two integers are compared
  exactly, an integer with a decimal after rounding it to one.  Records and lists have no order, nor
  have values of different kinds.
-/

namespace Scim

/-- The order of texts by code points. -/
def Text.compareChars : List Char → List Char → Ordering
  | [], [] => .eq
  | [], _ :: _ => .lt
  | _ :: _, [] => .gt
  | a :: as, b :: bs => (compare a.toNat b.toNat).then (compareChars as bs)

/-- The order of two values, if they are comparable. -/
def Value.compare (left right : Value) : Option Ordering :=
  match left, right with
  | .null, .null => some .eq
  | .string a, .string b => some (Text.compareChars a.toList b.toList)
  | .boolean a, .boolean b => some (Ord.compare a.toNat b.toNat)
  | .integer a, .integer b => some (Ord.compare a.toInt b.toInt)
  | .dateTime a, .dateTime b => some (a.compare b)
  | .integer a, .decimal b => (Decimal.ofInt a.toInt).compare b
  | .decimal a, .integer b => a.compare (Decimal.ofInt b.toInt)
  | .decimal a, .decimal b => a.compare b
  | _, _ => none

end Scim
