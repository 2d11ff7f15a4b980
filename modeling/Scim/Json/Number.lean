import Scim.Json.Basic

/-!
  # Numbers as JSON writes them

  A numeral is an optional minus sign, a whole part without superfluous zeros, an optional fraction
  and an optional exponent.  `Numeral.value?` says which number it stands for:

    * without fraction and exponent it is an integer if it lies between -2^63 and 2^64 - 1, and
      `-0` is the negative zero, a decimal;
    * any other numeral is a decimal.  Its digits are read into a 64-bit coefficient; digits that no
      longer fit only move the point.  The coefficient is rounded to a binary64 number and scaled by
      a power of ten in one step, which rounds once more.  So the result may lie beside the nearest
      number for numerals of very many digits, and this is kept on purpose: two readers that scale
      alike agree on every bit;
    * a numeral too large for a finite decimal stands for no number.
-/

namespace Scim.Json

/-- A number as written. -/
structure Numeral where
  negative : Bool
  whole : List Char
  fraction : Option (List Char)
  /-- Whether the exponent is negative, and its digits. -/
  exponent : Option (Bool × List Char)
deriving DecidableEq, Repr

namespace Numeral

/-! ## Reading off the text -/

/-- The digits 0 to 9. -/
def isDigit (c : Char) : Bool := '0' ≤ c && c ≤ '9'

/-- A non-empty run of digits, and what follows it. -/
def readDigits? (cs : List Char) : Option (List Char × List Char) :=
  match cs.takeWhile isDigit with
  | [] => none
  | digits => some (digits, cs.dropWhile isDigit)

/-- The whole part: a zero that stands alone, or digits that do not start with one. -/
def readWhole? (cs : List Char) : Option (List Char × List Char) :=
  match readDigits? cs with
  | some ('0' :: _ :: _, _) => none
  | found => found

/-- The fraction, if there is a point. -/
def readFraction? (cs : List Char) : Option (Option (List Char) × List Char) :=
  match cs with
  | '.' :: rest => (readDigits? rest).map fun (digits, rest) => (some digits, rest)
  | _ => some (none, cs)

/-- The digits of an exponent after its mark, with their sign. -/
def readExponentDigits? (cs : List Char) : Option ((Bool × List Char) × List Char) :=
  match cs with
  | '+' :: rest => (readDigits? rest).map fun (digits, rest) => ((false, digits), rest)
  | '-' :: rest => (readDigits? rest).map fun (digits, rest) => ((true, digits), rest)
  | _ => (readDigits? cs).map fun (digits, rest) => ((false, digits), rest)

/-- The exponent, if there is an exponent mark. -/
def readExponent? (cs : List Char) : Option (Option (Bool × List Char) × List Char) :=
  match cs with
  | 'e' :: rest => (readExponentDigits? rest).map fun (exponent, rest) => (some exponent, rest)
  | 'E' :: rest => (readExponentDigits? rest).map fun (exponent, rest) => (some exponent, rest)
  | _ => some (none, cs)

/-- The numeral at the start of a text, and what follows it. -/
def read? (cs : List Char) : Option (Numeral × List Char) := do
  let (negative, cs) := match cs with
    | '-' :: rest => (true, rest)
    | _ => (false, cs)
  let (whole, cs) ← readWhole? cs
  let (fraction, cs) ← readFraction? cs
  let (exponent, cs) ← readExponent? cs
  return (⟨negative, whole, fraction, exponent⟩, cs)

/-! ## The number meant -/

/-- The value of a digit. -/
def digitValue (c : Char) : Nat := c.toNat - '0'.toNat

/-- The number that digits write. -/
def natValue (digits : List Char) : Nat := digits.foldl (fun n c => 10 * n + digitValue c) 0

/-- The largest coefficient. -/
def maxCoefficient : Nat := 0xFFFFFFFFFFFFFFFF

/-- Reads digits into a coefficient while they fit; says how many were read and how many are left. -/
def fill (coefficient : Nat) : List Char → Nat × Nat × Nat
  | [] => (coefficient, 0, 0)
  | c :: rest =>
    let next := 10 * coefficient + digitValue c
    if next ≤ maxCoefficient then
      let (filled, read, left) := fill next rest
      (filled, read + 1, left)
    else (coefficient, 0, rest.length + 1)

/-- Coefficient and exponent of the digits before and after the point. -/
def coefficient (n : Numeral) : Nat × Int :=
  let (whole, _, left) := fill 0 n.whole
  let (all, read, _) := fill whole (n.fraction.getD [])
  (all, (left : Int) - read)

/-- The exponent as written, zero if there is none. -/
def writtenExponent (n : Numeral) : Int :=
  match n.exponent with
  | none => 0
  | some (true, digits) => -(natValue digits : Int)
  | some (false, digits) => natValue digits

/-- Scales by a power of ten.  Powers beyond the largest binary64 number are taken in steps of 308
    decimal places; `steps` bounds their count, and three of them leave zero. -/
def scale (d : Decimal) (k : Int) : Nat → Option Decimal
  | 0 => if d.isZero then some d else none
  | steps + 1 =>
    if k.natAbs ≤ 308 then
      let scaled := d.scaleTen k
      if scaled.isFinite then some scaled else none
    else if d.isZero then some d
    else if 0 ≤ k then none
    else scale (d.scaleTen (-308)) (k + 308) steps

/-- The decimal that a numeral stands for. -/
def decimal? (n : Numeral) : Option Decimal :=
  let (c, k) := n.coefficient
  (scale (Decimal.ofInt c) (k + n.writtenExponent) 4).map fun d =>
    Decimal.ofMagnitude n.negative d.magnitude

/-- The number that a numeral stands for. -/
def value? (n : Numeral) : Option Json :=
  let whole := natValue n.whole
  let integral := n.fraction.isNone && n.exponent.isNone
  if integral && !n.negative && whole ≤ maxCoefficient then some (.integer whole)
  else if integral && n.negative && 0 < whole && whole ≤ 0x8000000000000000 then some (.integer (-whole))
  else n.decimal?.map .decimal

end Numeral

/-! ## Scalars -/

/-- The value of a word that is a JSON constant or number, all of it. -/
def scalar? (word : List Char) : Option Json :=
  if word = ['t', 'r', 'u', 'e'] then some (.bool true)
  else if word = ['f', 'a', 'l', 's', 'e'] then some (.bool false)
  else if word = ['n', 'u', 'l', 'l'] then some .null
  else match Numeral.read? word with
    | some (n, []) => n.value?
    | _ => none

example : (Numeral.read? "-12.50e+3".toList).map (·.1) =
    some ⟨true, ['1', '2'], some ['5', '0'], some (false, ['3'])⟩ := by decide +kernel
example : Numeral.read? "01".toList = none := by decide +kernel
example : (Numeral.read? "0.1".toList).bind (·.1.decimal?) = some ⟨0x3FB999999999999A⟩ := by
  decide +kernel

end Scim.Json
