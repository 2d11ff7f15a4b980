/-!
  # Date-times

  A date-time is kept as it is written: the fields of a calendar and a clock, and the distance of
  that clock from universal time.  Two date-times are compared by the moment they name (`instant`),
  so the same moment on two clocks is the same date-time.

    * `parse?` reads the Internet format: `2024-02-29T23:59:60.125+01:00`.  The date must exist, `T`
      may be small or a blank, the zone is `Z` or hours and minutes.  A second may be the sixtieth:
      a leap second lies after all fractions of the fifty-ninth and before the next minute.
    * `render` writes it, with the fewest of 0, 3, 6 or 9 places that are exact.
-/

namespace Scim

/-- Calendar, clock and zone. -/
structure DateTime where
  year : Nat
  month : Nat
  day : Nat
  hour : Nat
  minute : Nat
  /-- Sixty in a leap second. -/
  second : Nat
  nano : Nat
  /-- Minutes that the clock is ahead of universal time. -/
  offset : Int
deriving DecidableEq, Repr

namespace DateTime

/-! ## The calendar -/

/-- Whether a year has a 29th of February. -/
def isLeapYear (year : Nat) : Bool := year % 4 == 0 && (year % 100 != 0 || year % 400 == 0)

/-- The number of days of a month. -/
def daysIn (year month : Nat) : Nat :=
  match month with
  | 2 => if isLeapYear year then 29 else 28
  | 4 | 6 | 9 | 11 => 30
  | _ => 31

/-- The days of a year before a month. -/
def daysBeforeMonth (year month : Nat) : Nat :=
  (List.range (month - 1)).foldl (fun days m => days + daysIn year (m + 1)) 0

/-- The days before a year, counted from the year zero. -/
def daysBeforeYear (year : Nat) : Nat :=
  365 * year + (year + 3) / 4 - (year + 99) / 100 + (year + 399) / 400

/-- The days from the first day of the year zero. -/
def dayNumber (t : DateTime) : Nat :=
  daysBeforeYear t.year + daysBeforeMonth t.year t.month + (t.day - 1)

/-! ## Moments -/

/-- The moment in universal time: seconds, and nanoseconds within the second.  A leap second belongs
    to the second before it and has more than a billion nanoseconds. -/
def instant (t : DateTime) : Int × Nat :=
  let clock := t.hour * 3600 + t.minute * 60 + min t.second 59
  ((t.dayNumber * 86400 + clock : Nat) - t.offset * 60,
    t.nano + if t.second = 60 then 1000000000 else 0)

/-- The order of the moments. -/
def compare (a b : DateTime) : Ordering :=
  (Ord.compare a.instant.1 b.instant.1).then (Ord.compare a.instant.2 b.instant.2)

/-- Whether two date-times name one moment. -/
def same (a b : DateTime) : Bool := a.compare b == .eq

/-! ## Reading -/

/-- The value of a digit. -/
def digit? (c : Char) : Option Nat :=
  if '0' ≤ c ∧ c ≤ '9' then some (c.toNat - '0'.toNat) else none

/-- A number of exactly `count` digits, continuing from `sofar`. -/
def readNumber? : Nat → Nat → List Char → Option (Nat × List Char)
  | 0, sofar, cs => some (sofar, cs)
  | _ + 1, _, [] => none
  | count + 1, sofar, c :: rest =>
    match digit? c with
    | some d => readNumber? count (10 * sofar + d) rest
    | none => none

/-- One of the characters that `accepts`. -/
def readMark? (accepts : Char → Bool) (cs : List Char) : Option (List Char) :=
  match cs with
  | c :: rest => if accepts c then some rest else none
  | [] => none

/-- The nanoseconds after a point, or none without one.  Digits after the ninth are dropped. -/
def readFraction? (cs : List Char) : Option (Nat × List Char) :=
  match cs with
  | '.' :: rest =>
    let digits := rest.takeWhile fun c => (digit? c).isSome
    if digits.isEmpty then none
    else
      let nano := ((digits ++ List.replicate 9 '0').take 9).foldl
        (fun n c => 10 * n + (digit? c).getD 0) 0
      some (nano, rest.drop digits.length)
  | _ => some (0, cs)

/-- The zone, up to the end of the text. -/
def readOffset? (cs : List Char) : Option Int :=
  match cs with
  | ['Z'] | ['z'] => some 0
  | sign :: rest => do
    let ahead ← if sign = '+' then some true
      else if sign = '-' ∨ sign = '\u2212' then some false else none
    let (hours, rest) ← readNumber? 2 0 rest
    let rest ← readMark? (· == ':') rest
    let (minutes, rest) ← readNumber? 2 0 rest
    if rest.isEmpty ∧ hours ≤ 23 ∧ minutes ≤ 59 then
      some (if ahead then (60 * hours + minutes : Nat) else -((60 * hours + minutes : Nat) : Int))
    else none
  | [] => none

/-- Whether the fields name a day that exists and a time of day. -/
def isValid (t : DateTime) : Bool :=
  1 ≤ t.month && t.month ≤ 12 && 1 ≤ t.day && t.day ≤ daysIn t.year t.month &&
    t.hour ≤ 23 && t.minute ≤ 59 && t.second ≤ 60

/-- Reads a date-time in the Internet format. -/
def parse? (s : String) : Option DateTime := do
  let (year, cs) ← readNumber? 4 0 s.toList
  let cs ← readMark? (· == '-') cs
  let (month, cs) ← readNumber? 2 0 cs
  let cs ← readMark? (· == '-') cs
  let (day, cs) ← readNumber? 2 0 cs
  let cs ← readMark? (fun c => c == 'T' || c == 't' || c == ' ') cs
  let (hour, cs) ← readNumber? 2 0 cs
  let cs ← readMark? (· == ':') cs
  let (minute, cs) ← readNumber? 2 0 cs
  let cs ← readMark? (· == ':') cs
  let (second, cs) ← readNumber? 2 0 cs
  let (nano, cs) ← readFraction? cs
  let offset ← readOffset? cs
  let t : DateTime := ⟨year, month, day, hour, minute, second, nano, offset⟩
  if t.isValid then some t else none

/-! ## Writing -/

/-- The last `width` digits of a number, zeros in front. -/
def digits : Nat → Nat → List Char
  | 0, _ => []
  | width + 1, n => digits width (n / 10) ++ [Char.ofNat ('0'.toNat + n % 10)]

/-- The fraction of a second with as many places as it needs. -/
def renderFraction (nano : Nat) : List Char :=
  if nano = 0 then []
  else if nano % 1000000 = 0 then '.' :: digits 3 (nano / 1000000)
  else if nano % 1000 = 0 then '.' :: digits 6 (nano / 1000)
  else '.' :: digits 9 nano

/-- The zone; universal time is `Z`. -/
def renderOffset (offset : Int) : List Char :=
  if offset = 0 then ['Z']
  else
    let minutes := offset.natAbs
    (if offset < 0 then '-' else '+') :: digits 2 (minutes / 60) ++ ':' :: digits 2 (minutes % 60)

/-- Writes a date-time in the Internet format. -/
def render (t : DateTime) : String :=
  String.ofList <|
    digits 4 t.year ++ '-' :: digits 2 t.month ++ '-' :: digits 2 t.day ++
    'T' :: digits 2 t.hour ++ ':' :: digits 2 t.minute ++ ':' :: digits 2 t.second ++
    renderFraction t.nano ++ renderOffset t.offset

example : (parse? "2024-02-29t23:59:60.5-01:30").map render = some "2024-02-29T23:59:60.500-01:30" := by
  decide +kernel
example : parse? "2023-02-29T00:00:00Z" = none := by decide +kernel
example : (do return same (← parse? "2024-01-01T00:30:00+01:00") (← parse? "2023-12-31T23:30:00Z"))
    = some true := by decide +kernel

end DateTime

end Scim
