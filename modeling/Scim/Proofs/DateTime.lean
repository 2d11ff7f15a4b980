import Mathlib.Tactic.Ring
import Scim.DateTime

/-!
  # Date-times are read from what they are written as

  A date-time that was read is written as a text that is read as the same date-time, whatever the
  text that it was read from: with other marks, with digits behind the nanoseconds or with a zone
  written in another way (`parse?_render`).

    * Digits make a number one after the other (`accumulate`).  Those that a number is written with
      make the number again, if there are enough of them (`accumulate_digits`).
    * A fraction is written with 3, 6 or 9 places.  The zeros that are left out are put back when it
      is read, and what follows it is no digit (`readFraction?_renderFraction`).
    * What was read has fields that fit their widths (`wellFormed_of_parse?`).
-/

namespace Scim.DateTime

/-! ## Digits -/

/-- The number that digits make behind a number. -/
def accumulate (sofar : Nat) (cs : List Char) : Nat :=
  cs.foldl (fun n c => 10 * n + (digit? c).getD 0) sofar

/-- The last digit of a number is read back. -/
theorem digit?_ofNat (n : Nat) : digit? (Char.ofNat ('0'.toNat + n % 10)) = some (n % 10) := by
  have hall : ∀ d < 10, digit? (Char.ofNat ('0'.toNat + d)) = some d := by decide
  exact hall (n % 10) (Nat.mod_lt n (by decide))

/-- A digit is less than ten, and so is what other characters count for. -/
theorem digit?_lt (c : Char) : (digit? c).getD 0 < 10 := by
  unfold digit?
  split
  · rename_i hrange
    have hc : c.toNat ≤ '9'.toNat := hrange.2
    have h9 : '9'.toNat = '0'.toNat + 9 := rfl
    show c.toNat - '0'.toNat < 10
    omega
  · decide

/-- Digits may be taken in two parts. -/
theorem accumulate_append (sofar : Nat) (cs cs' : List Char) :
    accumulate sofar (cs ++ cs') = accumulate (accumulate sofar cs) cs' := List.foldl_append

/-- A number is bounded by its count of digits. -/
theorem accumulate_lt (sofar : Nat) (cs : List Char) :
    accumulate sofar cs < (sofar + 1) * 10 ^ cs.length := by
  induction cs generalizing sofar with
  | nil => simp [accumulate]
  | cons c cs ih =>
    have hd := digit?_lt c
    calc accumulate sofar (c :: cs)
        < (10 * sofar + (digit? c).getD 0 + 1) * 10 ^ cs.length := ih _
      _ ≤ (10 * (sofar + 1)) * 10 ^ cs.length := Nat.mul_le_mul_right _ (by omega)
      _ = (sofar + 1) * 10 ^ (cs.length + 1) := by ring

/-- A number is written with as many digits as asked for. -/
theorem length_digits (width n : Nat) : (digits width n).length = width := by
  induction width generalizing n with
  | zero => rfl
  | succ width ih => rw [digits, List.length_append, ih, List.length_singleton]

/-- A number is written with digits only. -/
theorem isSome_digit?_of_mem {width n : Nat} : ∀ c ∈ digits width n, (digit? c).isSome = true := by
  induction width generalizing n with
  | zero => exact fun c hc => nomatch hc
  | succ width ih =>
    intro c hc
    rcases List.mem_append.mp hc with hc | hc
    · exact ih c hc
    · obtain rfl := List.mem_singleton.mp hc
      rw [digit?_ofNat]
      rfl

/-- The digits of a number make its last places. -/
theorem accumulate_digits (width sofar n : Nat) :
    accumulate sofar (digits width n) = sofar * 10 ^ width + n % 10 ^ width := by
  induction width generalizing n with
  | zero => simp [accumulate, digits, Nat.mod_one]
  | succ width ih =>
    -- the last digit, and the others as a number of their own
    have hsplit : n % 10 ^ (width + 1) = n % 10 + 10 * (n / 10 % 10 ^ width) := by
      rw [Nat.pow_succ, Nat.mul_comm, Nat.mod_mul]
    rw [digits, accumulate_append, ih, hsplit]
    show 10 * (sofar * 10 ^ width + n / 10 % 10 ^ width) + (digit? _).getD 0 = _
    rw [digit?_ofNat, Option.getD_some]
    ring

/-- Zeros behind a number multiply it by powers of ten. -/
theorem accumulate_zeros (sofar count : Nat) :
    accumulate sofar (List.replicate count '0') = sofar * 10 ^ count := by
  induction count generalizing sofar with
  | zero => simp [accumulate]
  | succ count ih =>
    show accumulate (10 * sofar + 0) (List.replicate count '0') = _
    rw [ih]
    ring

/-! ## Numbers of a fixed width -/

/-- As many digits as asked for are read, and what follows is left. -/
theorem readNumber?_append (sofar : Nat) {cs : List Char} (h : ∀ c ∈ cs, (digit? c).isSome = true)
    (rest : List Char) :
    readNumber? cs.length sofar (cs ++ rest) = some (accumulate sofar cs, rest) := by
  induction cs generalizing sofar with
  | nil => rfl
  | cons c cs ih =>
    obtain ⟨hc, hcs⟩ := List.forall_mem_cons.mp h
    obtain ⟨d, hd⟩ := Option.isSome_iff_exists.mp hc
    have hsofar : accumulate sofar (c :: cs) = accumulate (10 * sofar + d) cs := by
      show accumulate (10 * sofar + (digit? c).getD 0) cs = _
      rw [hd, Option.getD_some]
    rw [List.length_cons, List.cons_append, readNumber?, hd, hsofar]
    exact ih (10 * sofar + d) hcs

/-- A number that fits its width is read back. -/
theorem readNumber?_digits {width n : Nat} (h : n < 10 ^ width) (rest : List Char) :
    readNumber? width 0 (digits width n ++ rest) = some (n, rest) := by
  have hdigits : ∀ c ∈ digits width n, (digit? c).isSome = true := isSome_digit?_of_mem
  have hread := readNumber?_append 0 hdigits rest
  rwa [length_digits, accumulate_digits, Nat.zero_mul, Nat.zero_add, Nat.mod_eq_of_lt h] at hread

/-- What is read fits its width. -/
theorem lt_of_readNumber? {width sofar n : Nat} {cs rest : List Char}
    (h : readNumber? width sofar cs = some (n, rest)) : n < (sofar + 1) * 10 ^ width := by
  -- the number is made of so many characters, whatever they are
  have hmade : ∃ part, part.length = width ∧ accumulate sofar part = n := by
    induction width generalizing sofar cs with
    | zero =>
      obtain ⟨rfl, -⟩ : sofar = n ∧ cs = rest := by simpa [readNumber?] using h
      exact ⟨[], rfl, rfl⟩
    | succ width ih =>
      cases cs with
      | nil => nomatch h
      | cons c cs =>
        rw [readNumber?] at h
        split at h
        · rename_i d hd
          obtain ⟨part, hlength, hpart⟩ := ih h
          refine ⟨c :: part, congrArg (· + 1) hlength, ?_⟩
          show accumulate (10 * sofar + (digit? c).getD 0) part = n
          rw [hd]
          exact hpart
        · nomatch h
  obtain ⟨part, rfl, rfl⟩ := hmade
  exact accumulate_lt sofar part

/-! ## Fractions -/

/-- A text that does not go on with a digit. -/
def Stops (cs : List Char) : Prop := ∀ c ∈ cs.head?, (digit? c).isSome = false

/-- A fraction with some places is read as so many nanoseconds. -/
theorem readFraction?_digits {places n : Nat} (hpos : 0 < places) (hplaces : places ≤ 9)
    (hn : n < 10 ^ places) {rest : List Char} (hrest : Stops rest) :
    readFraction? ('.' :: (digits places n ++ rest)) = some (n * 10 ^ (9 - places), rest) := by
  have htake : (digits places n ++ rest).takeWhile (fun c => (digit? c).isSome) =
      digits places n := by
    rw [List.takeWhile_append_of_pos isSome_digit?_of_mem]
    cases rest with
    | nil => simp
    | cons c rest =>
      have hc := hrest c rfl
      rw [List.takeWhile_cons_of_neg (by simp [hc]), List.append_nil]
  have hne : (digits places n).isEmpty = false := by
    rw [List.isEmpty_eq_false_iff, ← List.length_pos_iff, length_digits]
    exact hpos
  -- places that are not written count as zeros
  have hpad : (digits places n ++ List.replicate 9 '0').take 9 =
      digits places n ++ List.replicate (9 - places) '0' := by
    rw [List.take_append, length_digits, List.take_replicate, List.take_of_length_le
      (by rw [length_digits]; exact hplaces), Nat.min_eq_left (Nat.sub_le 9 places)]
  have hnano : accumulate 0 ((digits places n ++ List.replicate 9 '0').take 9) =
      n * 10 ^ (9 - places) := by
    rw [hpad, accumulate_append, accumulate_digits, accumulate_zeros, Nat.zero_mul, Nat.zero_add,
      Nat.mod_eq_of_lt hn]
  have hdrop : (digits places n ++ rest).drop (digits places n).length = rest :=
    List.drop_left
  simp only [readFraction?, htake, hne, Bool.false_eq_true, if_false, hdrop]
  exact congrArg (fun nano => some (nano, rest)) hnano

/-- A fraction is read back, be it written with 3, 6 or 9 places or not at all. -/
theorem readFraction?_renderFraction {nano : Nat} (h : nano < 10 ^ 9) {rest : List Char}
    (hrest : Stops rest) (hpoint : rest.head? ≠ some '.') :
    readFraction? (renderFraction nano ++ rest) = some (nano, rest) := by
  unfold renderFraction
  split
  · -- nothing is written, and what follows is not mistaken for a fraction
    rename_i hzero
    subst hzero
    rw [List.nil_append]
    unfold readFraction?
    split
    · exact absurd rfl hpoint
    · rfl
  · split
    · rename_i hmillis
      rw [List.cons_append, readFraction?_digits (by decide) (by decide) (by omega) hrest]
      congr 2
      omega
    · split
      · rename_i hmicros
        rw [List.cons_append, readFraction?_digits (by decide) (by decide) (by omega) hrest]
        congr 2
        omega
      · rw [List.cons_append, readFraction?_digits (by decide) (by decide) h hrest]
        simp

/-- No more than nine places of a fraction count. -/
theorem lt_of_readFraction? {cs rest : List Char} {nano : Nat}
    (h : readFraction? cs = some (nano, rest)) : nano < 10 ^ 9 := by
  unfold readFraction? at h
  split at h
  · rename_i cs
    dsimp only at h
    split at h
    · nomatch h
    · obtain ⟨rfl, -⟩ := Prod.mk.inj (Option.some.inj h)
      set digits := cs.takeWhile fun c => (digit? c).isSome
      have hlength : ((digits ++ List.replicate 9 '0').take 9).length ≤ 9 := by
        rw [List.length_take]
        exact Nat.min_le_left _ _
      calc accumulate 0 ((digits ++ List.replicate 9 '0').take 9)
          < (0 + 1) * 10 ^ ((digits ++ List.replicate 9 '0').take 9).length := accumulate_lt 0 _
        _ ≤ 1 * 10 ^ 9 := Nat.mul_le_mul_left 1 (Nat.pow_le_pow_right (by decide) hlength)
        _ = 10 ^ 9 := Nat.one_mul _
  · obtain ⟨rfl, -⟩ := Prod.mk.inj (Option.some.inj h)
    decide

/-! ## Zones -/

/-- Hours and minutes behind a sign. -/
theorem readOffset?_sign {sign : Char} {ahead : Bool} (hsign : ahead = true ∧ sign = '+' ∨
    ahead = false ∧ sign = '-') {hours minutes : Nat} (hhours : hours ≤ 23)
    (hminutes : minutes ≤ 59) :
    readOffset? (sign :: digits 2 hours ++ ':' :: digits 2 minutes) =
      some (if ahead then ((60 * hours + minutes : Nat) : Int)
        else -((60 * hours + minutes : Nat) : Int)) := by
  have hread := readNumber?_digits (show hours < 10 ^ 2 by omega) (':' :: digits 2 minutes)
  have hread' := readNumber?_digits (show minutes < 10 ^ 2 by omega) []
  rw [List.append_nil] at hread'
  rcases hsign with ⟨rfl, rfl⟩ | ⟨rfl, rfl⟩ <;>
    simp [readOffset?, readMark?, hread, hread', hhours, hminutes]

/-- A zone is read back. -/
theorem readOffset?_renderOffset {offset : Int} (h : offset.natAbs < 1440) :
    readOffset? (renderOffset offset) = some offset := by
  have hhours : offset.natAbs / 60 ≤ 23 := by omega
  have hminutes : offset.natAbs % 60 ≤ 59 := by omega
  unfold renderOffset
  split
  · rename_i hzero
    rw [hzero]
    rfl
  · dsimp only
    split
    · rename_i hneg
      rw [readOffset?_sign (.inr ⟨rfl, rfl⟩) hhours hminutes, if_neg Bool.false_ne_true]
      congr 1
      omega
    · rename_i hneg
      rw [readOffset?_sign (.inl ⟨rfl, rfl⟩) hhours hminutes, if_pos rfl]
      congr 1
      omega

/-- What begins a zone is no digit and no point. -/
theorem stops_renderOffset (offset : Int) :
    Stops (renderOffset offset) ∧ (renderOffset offset).head? ≠ some '.' := by
  -- the first character tells
  have hhead : ∀ {c : Char} {rest : List Char}, (digit? c).isSome = false → c ≠ '.' →
      Stops (c :: rest) ∧ (c :: rest).head? ≠ some '.' := by
    intro c rest hdigit hpoint
    refine ⟨fun d hd => ?_, fun h => hpoint (Option.some.inj h)⟩
    rwa [← Option.some.inj hd]
  unfold renderOffset
  split
  · exact hhead (by decide) (by decide)
  · dsimp only
    split
    · exact hhead (by decide) (by decide)
    · exact hhead (by decide) (by decide)

/-- A zone that was read is less than a day away. -/
theorem natAbs_lt_of_readOffset? {cs : List Char} {offset : Int}
    (h : readOffset? cs = some offset) : offset.natAbs < 1440 := by
  unfold readOffset? at h
  split at h
  · obtain rfl := Option.some.inj h
    decide
  · obtain rfl := Option.some.inj h
    decide
  · -- whatever the sign, hours and minutes are those of a day
    dsimp only at h
    split at h
    case' isFalse => split at h
    all_goals
      simp only [Option.bind_eq_bind, Option.bind_eq_some_iff] at h
      obtain ⟨ahead, -, ⟨hours, rest⟩, -, rest', -, ⟨minutes, rest''⟩, -, h⟩ := h
      split at h
      · rename_i hbounds
        obtain rfl := Option.some.inj h
        split <;> omega
      · cases h
  · cases h

/-! ## Date-times -/

/-- The fields fit the widths that they are written with. -/
structure WellFormed (t : DateTime) : Prop where
  valid : t.isValid = true
  year : t.year < 10 ^ 4
  nano : t.nano < 10 ^ 9
  offset : t.offset.natAbs < 1440

/-- What was read fits the widths. -/
theorem wellFormed_of_parse? {s : String} {t : DateTime} (h : parse? s = some t) :
    t.WellFormed := by
  unfold parse? at h
  -- of the fields, only the year, the fraction and the zone are not bounded by the calendar
  obtain ⟨⟨year, cs⟩, hyear, h⟩ := Option.bind_eq_some_iff.mp h
  obtain ⟨cs, -, h⟩ := Option.bind_eq_some_iff.mp h
  obtain ⟨⟨month, cs⟩, -, h⟩ := Option.bind_eq_some_iff.mp h
  obtain ⟨cs, -, h⟩ := Option.bind_eq_some_iff.mp h
  obtain ⟨⟨day, cs⟩, -, h⟩ := Option.bind_eq_some_iff.mp h
  obtain ⟨cs, -, h⟩ := Option.bind_eq_some_iff.mp h
  obtain ⟨⟨hour, cs⟩, -, h⟩ := Option.bind_eq_some_iff.mp h
  obtain ⟨cs, -, h⟩ := Option.bind_eq_some_iff.mp h
  obtain ⟨⟨minute, cs⟩, -, h⟩ := Option.bind_eq_some_iff.mp h
  obtain ⟨cs, -, h⟩ := Option.bind_eq_some_iff.mp h
  obtain ⟨⟨second, cs⟩, -, h⟩ := Option.bind_eq_some_iff.mp h
  obtain ⟨⟨nano, cs⟩, hnano, h⟩ := Option.bind_eq_some_iff.mp h
  obtain ⟨offset, hoffset, h⟩ := Option.bind_eq_some_iff.mp h
  dsimp only at h
  split at h
  · rename_i hvalid
    obtain rfl := Option.some.inj h
    have hlt := lt_of_readNumber? hyear
    exact ⟨hvalid, by simpa using hlt, lt_of_readFraction? hnano, natAbs_lt_of_readOffset? hoffset⟩
  · nomatch h

/-- A date-time is read from its text. -/
theorem WellFormed.parse?_render {t : DateTime} (h : t.WellFormed) : parse? t.render = some t := by
  have hvalid := h.valid
  simp only [isValid, Bool.and_eq_true, decide_eq_true_eq] at hvalid
  obtain ⟨⟨⟨⟨⟨⟨-, hmonth⟩, -⟩, hday⟩, hhour⟩, hminute⟩, hsecond⟩ := hvalid
  -- the calendar bounds the fields, so that two digits suffice for each
  have hdays : t.day < 10 ^ 2 := by
    have hlast : daysIn t.year t.month ≤ 31 := by
      unfold daysIn
      split
      · split <;> decide
      all_goals decide
    omega
  have hmonths : t.month < 10 ^ 2 := by omega
  have hhours : t.hour < 10 ^ 2 := by omega
  have hminutes : t.minute < 10 ^ 2 := by omega
  have hseconds : t.second < 10 ^ 2 := by omega
  obtain ⟨hstops, hpoint⟩ := stops_renderOffset t.offset
  have htext : t.render.toList = digits 4 t.year ++ ('-' :: (digits 2 t.month ++ ('-' ::
      (digits 2 t.day ++ ('T' :: (digits 2 t.hour ++ (':' :: (digits 2 t.minute ++ (':' ::
      (digits 2 t.second ++ (renderFraction t.nano ++ renderOffset t.offset))))))))))) := by
    rw [render, String.toList_ofList]
    simp only [List.append_assoc, List.cons_append]
  -- field by field, each with the mark behind it
  unfold parse?
  rw [htext]
  refine Option.bind_eq_some_iff.mpr ⟨_, readNumber?_digits h.year _, ?_⟩
  refine Option.bind_eq_some_iff.mpr ⟨_, rfl, ?_⟩
  refine Option.bind_eq_some_iff.mpr ⟨_, readNumber?_digits hmonths _, ?_⟩
  refine Option.bind_eq_some_iff.mpr ⟨_, rfl, ?_⟩
  refine Option.bind_eq_some_iff.mpr ⟨_, readNumber?_digits hdays _, ?_⟩
  refine Option.bind_eq_some_iff.mpr ⟨_, rfl, ?_⟩
  refine Option.bind_eq_some_iff.mpr ⟨_, readNumber?_digits hhours _, ?_⟩
  refine Option.bind_eq_some_iff.mpr ⟨_, rfl, ?_⟩
  refine Option.bind_eq_some_iff.mpr ⟨_, readNumber?_digits hminutes _, ?_⟩
  refine Option.bind_eq_some_iff.mpr ⟨_, rfl, ?_⟩
  refine Option.bind_eq_some_iff.mpr ⟨_, readNumber?_digits hseconds _, ?_⟩
  refine Option.bind_eq_some_iff.mpr ⟨_, readFraction?_renderFraction h.nano hstops hpoint, ?_⟩
  refine Option.bind_eq_some_iff.mpr ⟨_, readOffset?_renderOffset h.offset, ?_⟩
  exact if_pos h.valid

/-- What was read from one text is read again from its own. -/
theorem parse?_render {s : String} {t : DateTime} (h : parse? s = some t) :
    parse? t.render = some t :=
  (wellFormed_of_parse? h).parse?_render

/-- A date-time is the same moment as itself. -/
theorem same_self (t : DateTime) : t.same t = true := by
  have hcompare : t.compare t = .eq := by
    show (Ord.compare t.instant.1 t.instant.1).then (Ord.compare t.instant.2 t.instant.2) = .eq
    rw [Std.compare_self, Std.compare_self]
    rfl
  rw [same, hcompare]
  rfl

end Scim.DateTime
