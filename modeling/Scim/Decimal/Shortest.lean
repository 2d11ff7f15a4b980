import Scim.Decimal.Basic

/-!
  # The text of a decimal

  A decimal is written with the fewest digits that read back to it; of two such texts with equally
  many digits the one nearer to the number is taken, and of two equally near ones the even one.

    * `shortest` finds those digits with exact arithmetic: for 1, 2, … 17 digits it looks at the two
      neighbours of the number on the decimal grid, and stops at the first grid on which one of them
      lies among the reals that round to the number;
    * `text` places the point: positional notation while the number has at most sixteen digits
      before the point or at most four zeros after it, an exponent with its sign otherwise, and
      always a point or an exponent, so that a decimal never looks like an integer.
-/

namespace Scim.Decimal

/-! ## Digits -/

/-- A positive real `num / den`, with the reals that round to the same binary64 number:
    from `low / den` to `high / den`, the ends among them when `closed`. -/
structure Neighbourhood where
  num : Nat
  low : Nat
  high : Nat
  den : Nat
  closed : Bool

/-- The neighbourhood of a finite number's magnitude. -/
def neighbourhood (d : Decimal) : Neighbourhood :=
  let (m, e) := d.parts
  -- below a power of two the numbers lie twice as dense
  let below := if m = hiddenBit ∧ -1074 < e then 1 else 2
  let up := 1 <<< (e - 2).toNat
  ⟨4 * m * up, (4 * m - below) * up, (4 * m + 2) * up, 1 <<< (2 - e).toNat, m % 2 = 0⟩

/-- Whether `c * 10 ^ k` rounds to the number. -/
def Neighbourhood.holds (n : Neighbourhood) (c : Nat) (k : Int) : Bool :=
  let x := c * Nat.pow 10 k.toNat * n.den
  let scale := Nat.pow 10 (-k).toNat
  if n.closed then n.low * scale ≤ x && x ≤ n.high * scale
  else n.low * scale < x && x < n.high * scale

/-- The exponent of the leading decimal digit. -/
def Neighbourhood.leading (n : Neighbourhood) : Int :=
  if n.den ≤ n.num then ((Nat.toDigits 10 (n.num / n.den)).length : Int) - 1
  else -(((List.range 330).find? fun j => n.den ≤ n.num * Nat.pow 10 j).getD 0 : Int)

/-- The number on the grid `10 ^ k` to be taken, if one of the two neighbours will do. -/
def Neighbourhood.onGrid? (n : Neighbourhood) (k : Int) : Option Nat :=
  let num := n.num * Nat.pow 10 (-k).toNat
  let den := n.den * Nat.pow 10 k.toNat
  let c := num / den
  let nearest := roundDiv num den
  if n.holds nearest k then some nearest
  else if n.holds c k then some c
  else if n.holds (c + 1) k then some (c + 1)
  else none

/-- Coefficient and exponent of the shortest decimal that reads back. -/
def shortest (d : Decimal) : Nat × Int :=
  let n := d.neighbourhood
  let top := n.leading
  let found := (List.range 17).findSome? fun (i : Nat) =>
    let k := top - (i : Int)
    (n.onGrid? k).map fun c => (c, k)
  found.getD (0, 0)

/-! ## Notation -/

/-- Digits `ds` with the point `point` places after their start. -/
def place (ds : List Char) (point : Int) : List Char :=
  if ds.length ≤ point ∧ point ≤ 16 then
    ds ++ List.replicate (point.toNat - ds.length) '0' ++ ['.', '0']
  else if 0 < point ∧ point ≤ 16 then ds.take point.toNat ++ '.' :: ds.drop point.toNat
  else if -5 < point ∧ point ≤ 0 then
    '0' :: '.' :: List.replicate (-point).toNat '0' ++ ds
  else
    let lead := ds.take 1
    let more := ds.drop 1
    let sign := if 0 < point then ['+'] else ['-']
    lead ++ (if more.isEmpty then [] else '.' :: more) ++
      'e' :: sign ++ Nat.toDigits 10 (point - 1).natAbs

/-- Drops the zeros at the end, but never the first digit. -/
def dropZeros (ds : List Char) : List Char :=
  ds.take 1 ++ ((ds.drop 1).reverse.dropWhile (· == '0')).reverse

/-- The text of a finite number. -/
def text (d : Decimal) : List Char :=
  let sign := if d.isNegative then ['-'] else []
  if d.isZero then sign ++ ['0', '.', '0']
  else
    let (c, k) := d.shortest
    let ds := Nat.toDigits 10 c
    sign ++ place (dropZeros ds) (ds.length + k)

end Scim.Decimal
