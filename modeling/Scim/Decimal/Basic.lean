/-!
  # Decimals

  A decimal value is a binary64 number, held as its bit pattern: one sign bit, eleven bits of
  exponent, fifty-two bits of fraction.  All arithmetic is done exactly, on ratios of natural
  numbers, and rounded once (`ofRatio`: to the nearest number, a tie to the even one), so every
  function here can be computed with by hand.

    * `ratio` reads a finite magnitude off the bits, `ofRatio` is the way back;
    * `compare` orders numbers by value: the two zeros are equal, NaN is not comparable;
    * `scaleTen` multiplies by a power of ten, itself rounded to a binary64 number first.
-/

namespace Scim

/-- A binary64 number. -/
structure Decimal where
  bits : UInt64
deriving DecidableEq, Repr

namespace Decimal

/-! ## Reading the bits -/

/-- The sign bit; the bits below it are the magnitude. -/
def signBit : Nat := 0x8000000000000000

/-- The first power of two beyond the fraction bits. -/
def hiddenBit : Nat := 0x10000000000000

/-- Whether the sign bit is set. -/
def isNegative (d : Decimal) : Bool := signBit ≤ d.bits.toNat

/-- The bits without the sign. -/
def magnitude (d : Decimal) : Nat := d.bits.toNat % signBit

/-- The magnitude of the infinities; beyond it lie the NaNs. -/
def infiniteMagnitude : Nat := 0x7FF0000000000000

/-- Whether the bits stand for no number. -/
def isNaN (d : Decimal) : Bool := infiniteMagnitude < d.magnitude

/-- Whether the bits stand for a number other than the infinities. -/
def isFinite (d : Decimal) : Bool := d.magnitude < infiniteMagnitude

/-- Whether the number is one of the two zeros. -/
def isZero (d : Decimal) : Bool := d.magnitude == 0

/-- Mantissa and binary exponent of a finite number's magnitude. -/
def parts (d : Decimal) : Nat × Int :=
  let biased : Nat := d.magnitude / hiddenBit
  let fraction : Nat := d.magnitude % hiddenBit
  if biased = 0 then (fraction, -1074) else (hiddenBit + fraction, (biased : Int) - 1075)

/-- The magnitude of a finite number as a ratio. -/
def ratio (d : Decimal) : Nat × Nat :=
  let (m, e) := d.parts
  if 0 ≤ e then (m <<< e.toNat, 1) else (m, 1 <<< (-e).toNat)

/-! ## Rounding -/

/-- A number from its sign and the bits of its magnitude. -/
def ofMagnitude (negative : Bool) (m : Nat) : Decimal :=
  ⟨UInt64.ofNat (if negative then signBit + m else m)⟩

/-- The quotient rounded to the nearest natural number, a tie to the even one. -/
def roundDiv (num den : Nat) : Nat :=
  let q := num / den
  let r := num % den
  if den < 2 * r ∨ (den = 2 * r ∧ q % 2 = 1) then q + 1 else q

/-- The binary64 number nearest to `num / den`; infinite when it lies beyond the largest one. -/
def ofRatio (negative : Bool) (num den : Nat) : Decimal :=
  if num = 0 then ofMagnitude negative 0
  else
    let guess : Int := (Nat.log2 num : Int) - Nat.log2 den
    let reached := if 0 ≤ guess then den <<< guess.toNat ≤ num
      else den ≤ num <<< (-guess).toNat
    let e : Int := max ((if reached then guess else guess - 1) - 52) (-1074)
    let m := if 0 ≤ e then roundDiv num (den <<< e.toNat)
      else roundDiv (num <<< (-e).toNat) den
    ofMagnitude negative (min ((e + 1074).toNat * hiddenBit + m) infiniteMagnitude)

/-- The number nearest to an integer. -/
def ofInt (n : Int) : Decimal := ofRatio (n < 0) n.natAbs 1

/-- The product with `10 ^ k` where `k` is positive, the quotient by `10 ^ -k` where it is negative.
    The power of ten is a binary64 number too: it is rounded before it is used. -/
def scaleTen (d : Decimal) (k : Int) : Decimal :=
  let (num, den) := d.ratio
  let (pnum, pden) := (ofRatio false (Nat.pow 10 k.natAbs) 1).ratio
  if 0 ≤ k then ofRatio d.isNegative (num * pnum) (den * pden)
  else ofRatio d.isNegative (num * pden) (den * pnum)

/-! ## Order -/

/-- The position of a number on the line of all numbers: both zeros stand at zero. -/
def rank (d : Decimal) : Int := if d.isNegative then -(d.magnitude : Int) else d.magnitude

/-- The order of two numbers by value; a NaN has none. -/
def compare (a b : Decimal) : Option Ordering :=
  if a.isNaN || b.isNaN then none else some (Ord.compare a.rank b.rank)

/-- Equality of values. -/
def same (a b : Decimal) : Bool := a.compare b == some .eq

example : (ofInt 1).bits = 0x3FF0000000000000 := by decide +kernel
example : (ofInt (-3)).bits = 0xC008000000000000 := by decide +kernel
example : (ofRatio false 1 10).bits = 0x3FB999999999999A := by decide +kernel
example : (scaleTen (ofInt 5) (-1)).bits = 0x3FE0000000000000 := by decide +kernel
example : same (ofMagnitude true 0) (ofMagnitude false 0) = true := by decide

end Decimal

end Scim
