import Mathlib.Algebra.Group.Nat.Defs
import Mathlib.Data.List.TakeWhile
import Scim.Json.Number
import Scim.Proofs.Text.Casing

/-!
  # Numbers of JSON words

    * A word that is a JSON constant or number consists of letters, digits, signs and points
      (`isNumeric_of_scalar?`): it holds no character that means anything to a filter.
    * A whole number as `toString` writes it is read as that number (`scalar?_toString`).
    * A decimal that was read is a number (`isNaN_of_scalar?`), and so is one made from an integer
      (`isNaN_ofInt`); if the integer has no more than 64 bits, it is finite (`isFinite_ofInt`).
-/

namespace Scim

/-! ## Decimals are numbers -/

namespace Decimal

/-- A magnitude within its bits is that of the decimal made of it. -/
theorem magnitude_ofMagnitude {negative : Bool} {m : Nat} (h : m < signBit) :
    (ofMagnitude negative m).magnitude = m := by
  unfold ofMagnitude magnitude
  unfold signBit at h ⊢
  cases negative with
  | true => simp; omega
  | false => simp; omega

/-- Below that of infinity it makes a finite decimal. -/
theorem isFinite_ofMagnitude {negative : Bool} {m : Nat} (h : m < infiniteMagnitude) :
    (ofMagnitude negative m).isFinite = true := by
  have hlt : m < signBit := Nat.lt_trans h (by decide)
  rw [isFinite, magnitude_ofMagnitude hlt]
  exact decide_eq_true h

/-- A ratio is rounded to a number. -/
theorem isNaN_ofRatio (negative : Bool) (num den : Nat) : (ofRatio negative num den).isNaN = false := by
  -- rounding ends at infinity, below the magnitudes that are no numbers
  have key : ∀ m, m ≤ infiniteMagnitude → (ofMagnitude negative m).isNaN = false := by
    intro m hm
    have hlt : m < signBit := Nat.lt_of_le_of_lt hm (by decide)
    rw [isNaN, magnitude_ofMagnitude hlt, decide_eq_false_iff_not]
    omega
  unfold ofRatio
  split
  · exact key 0 (Nat.zero_le _)
  · exact key _ (Nat.min_le_right _ _)

theorem isNaN_ofInt (n : Int) : (ofInt n).isNaN = false := isNaN_ofRatio _ _ _

/-- What is finite is a number. -/
theorem isNaN_of_isFinite {d : Decimal} (h : d.isFinite = true) : d.isNaN = false := by
  simp only [isFinite, decide_eq_true_eq] at h
  simp only [isNaN, decide_eq_false_iff_not]
  omega

/-- Rounding adds one at most. -/
theorem roundDiv_le (num den : Nat) : roundDiv num den ≤ num / den + 1 := by
  unfold roundDiv
  dsimp only
  split
  · exact Nat.le_refl _
  · exact Nat.le_succ _

/-- A whole number of 64 bits is no infinity as a decimal. -/
theorem isFinite_ofInt {n : Int} (h : n.natAbs < 2 ^ 64) : (ofInt n).isFinite = true := by
  unfold ofInt ofRatio
  split
  · exact isFinite_ofMagnitude (by decide)
  · rename_i hne
    generalize n.natAbs = num at h hne
    -- the exponent is guessed from the highest bit, which is below the 64th
    obtain ⟨log, hlog⟩ : ∃ log, Nat.log2 num = log := ⟨_, rfl⟩
    have hlt : log < 64 := hlog ▸ (Nat.log2_lt hne).mpr h
    have hlow : 2 ^ log ≤ num := hlog ▸ Nat.log2_self_le hne
    have hhigh : num < 2 ^ (log + 1) := hlog ▸ Nat.lt_log2_self
    have hguess : (Nat.log2 num : Int) - (Nat.log2 1 : Int) = log := by
      rw [hlog, show Nat.log2 1 = 0 by decide, Int.natCast_zero, Int.sub_zero]
    have hreached : (1 : Nat) <<< log ≤ num := by rwa [Nat.one_shiftLeft]
    have hexponent : max ((log : Int) - 52) (-1074) = (log : Int) - 52 := by omega
    -- the mantissa has 53 bits, whichever way it is shifted
    have hmantissa : (if 0 ≤ (log : Int) - 52 then roundDiv num (1 <<< ((log : Int) - 52).toNat)
        else roundDiv (num <<< (-((log : Int) - 52)).toNat) 1) ≤ 2 ^ 53 := by
      split
      · have hshift : ((log : Int) - 52).toNat = log - 52 := by omega
        have hpow : 2 ^ (log - 52) * 2 ^ 53 = 2 ^ (log + 1) := by
          rw [← Nat.pow_add]
          congr 1
          omega
        have hdiv : num / 2 ^ (log - 52) < 2 ^ 53 := Nat.div_lt_of_lt_mul (hpow ▸ hhigh)
        rw [hshift, Nat.one_shiftLeft]
        exact Nat.le_trans (roundDiv_le _ _) hdiv
      · have hshift : (-((log : Int) - 52)).toNat = 52 - log := by omega
        have hpow : 2 ^ (log + 1) * 2 ^ (52 - log) = 2 ^ 53 := by
          rw [← Nat.pow_add]
          congr 1
          omega
        have hmul : num * 2 ^ (52 - log) < 2 ^ 53 :=
          hpow ▸ Nat.mul_lt_mul_of_pos_right hhigh (Nat.two_pow_pos _)
        rw [hshift, Nat.shiftLeft_eq]
        exact Nat.le_trans (roundDiv_le _ _) (by rwa [Nat.div_one])
    have hscale : ((log : Int) - 52 + 1074).toNat ≤ 1085 := by omega
    simp only [hguess, Int.natCast_nonneg, if_true, Int.toNat_natCast, hreached, hexponent]
    refine isFinite_ofMagnitude (Nat.lt_of_le_of_lt (Nat.min_le_left _ _) ?_)
    -- the largest exponent and the largest mantissa do not reach infinity
    calc _ ≤ 1085 * hiddenBit + 2 ^ 53 := Nat.add_le_add (Nat.mul_le_mul_right _ hscale) hmantissa
      _ < infiniteMagnitude := by decide

/-- A number equals itself. -/
theorem same_self {d : Decimal} (h : d.isNaN = false) : d.same d = true := by
  simp [same, compare, h]

end Decimal

namespace Json

/-- The characters of JSON constants and numbers. -/
def isNumeric (c : Char) : Bool := c.isAlphanum || c == '+' || c == '-' || c == '.'

namespace Numeral

/-! ## What a numeral is made of -/

/-- Digits are among the characters of numbers. -/
theorem isNumeric_of_isDigit {c : Char} (h : isDigit c = true) : isNumeric c = true := by
  simp only [isDigit, Bool.and_eq_true, decide_eq_true_eq] at h
  have hc : c.isDigit = true := by
    simp only [Char.isDigit, Bool.and_eq_true, decide_eq_true_eq]
    exact h
  simp [isNumeric, Char.isAlphanum, hc]

/-- The text is what was read, all of it numeric, and the rest. -/
def Reads (cs rest : List Char) : Prop := ∃ part, cs = part ++ rest ∧ ∀ c ∈ part, isNumeric c = true

theorem Reads.refl (cs : List Char) : Reads cs cs := ⟨[], rfl, by simp⟩

/-- What is read in two steps is read in one. -/
theorem Reads.trans {a b c : List Char} (hab : Reads a b) (hbc : Reads b c) : Reads a c := by
  obtain ⟨p, rfl, hp⟩ := hab
  obtain ⟨q, rfl, hq⟩ := hbc
  refine ⟨p ++ q, (List.append_assoc p q c).symm, fun x hx => ?_⟩
  rcases List.mem_append.mp hx with hx | hx
  · exact hp x hx
  · exact hq x hx

/-- A numeric character before what is read is read, too. -/
theorem Reads.cons {c : Char} {cs rest : List Char} (hc : isNumeric c = true) (h : Reads cs rest) :
    Reads (c :: cs) rest := by
  obtain ⟨p, rfl, hp⟩ := h
  refine ⟨c :: p, rfl, fun x hx => ?_⟩
  rcases List.mem_cons.mp hx with rfl | hx
  · exact hc
  · exact hp x hx

/-- Digits are numeric, as many as there are. -/
theorem reads_of_readDigits? {cs digits rest : List Char} (h : readDigits? cs = some (digits, rest)) :
    Reads cs rest := by
  unfold readDigits? at h
  split at h
  · simp at h
  · simp only [Option.some.injEq, Prod.mk.injEq] at h
    refine ⟨cs.takeWhile isDigit, ?_, fun c hc => ?_⟩
    · rw [← h.2, List.takeWhile_append_dropWhile]
    · exact isNumeric_of_isDigit (List.all_eq_true.mp List.all_takeWhile c hc)

/-- So are the digits before the point. -/
theorem reads_of_readWhole? {cs whole rest : List Char} (h : readWhole? cs = some (whole, rest)) :
    Reads cs rest := by
  unfold readWhole? at h
  split at h
  · simp at h
  · exact reads_of_readDigits? h

/-- So are the point and the digits behind it, or nothing. -/
theorem reads_of_readFraction? {cs rest : List Char} {fraction : Option (List Char)}
    (h : readFraction? cs = some (fraction, rest)) : Reads cs rest := by
  unfold readFraction? at h
  split at h
  · obtain ⟨⟨digits, rest'⟩, hd, he⟩ := Option.map_eq_some_iff.mp h
    simp only [Prod.mk.injEq] at he
    rw [← he.2]
    exact (reads_of_readDigits? hd).cons (by decide)
  · simp only [Option.some.injEq, Prod.mk.injEq] at h
    rw [h.2]
    exact .refl _

/-- So are the sign and the digits of the exponent. -/
theorem reads_of_readExponentDigits? {cs rest : List Char} {exponent : Bool × List Char}
    (h : readExponentDigits? cs = some (exponent, rest)) : Reads cs rest := by
  unfold readExponentDigits? at h
  split at h
  all_goals
    obtain ⟨⟨digits, rest'⟩, hd, he⟩ := Option.map_eq_some_iff.mp h
    simp only [Prod.mk.injEq] at he
    rw [← he.2]
  · exact (reads_of_readDigits? hd).cons (by decide)
  · exact (reads_of_readDigits? hd).cons (by decide)
  · exact reads_of_readDigits? hd

/-- So is the exponent with its letter, or nothing. -/
theorem reads_of_readExponent? {cs rest : List Char} {exponent : Option (Bool × List Char)}
    (h : readExponent? cs = some (exponent, rest)) : Reads cs rest := by
  unfold readExponent? at h
  split at h
  · obtain ⟨⟨digits, rest'⟩, hd, he⟩ := Option.map_eq_some_iff.mp h
    simp only [Prod.mk.injEq] at he
    rw [← he.2]
    exact (reads_of_readExponentDigits? hd).cons (by decide)
  · obtain ⟨⟨digits, rest'⟩, hd, he⟩ := Option.map_eq_some_iff.mp h
    simp only [Prod.mk.injEq] at he
    rw [← he.2]
    exact (reads_of_readExponentDigits? hd).cons (by decide)
  · simp only [Option.some.injEq, Prod.mk.injEq] at h
    rw [h.2]
    exact .refl _

/-- A numeral is numeric as a whole: its sign, its digits, its fraction and its exponent. -/
theorem reads_of_read? {cs rest : List Char} {n : Numeral} (h : read? cs = some (n, rest)) :
    Reads cs rest := by
  unfold read? at h
  split at h
  rename_i negative body hsign
  -- behind the sign one part is read after the other
  have hbody : Reads body rest := by
    obtain ⟨⟨whole, a⟩, hw, h⟩ := Option.bind_eq_some_iff.mp h
    obtain ⟨⟨fraction, b⟩, hf, h⟩ := Option.bind_eq_some_iff.mp h
    obtain ⟨⟨exponent, c⟩, he, h⟩ := Option.bind_eq_some_iff.mp h
    have hc : c = rest := congrArg Prod.snd (Option.some.inj h)
    subst hc
    exact (reads_of_readWhole? hw).trans
      ((reads_of_readFraction? hf).trans (reads_of_readExponent? he))
  split at hsign
  · simp only [Prod.mk.injEq] at hsign
    rw [hsign.2]
    exact hbody.cons (by decide)
  · simp only [Prod.mk.injEq] at hsign
    rw [hsign.2]
    exact hbody

end Numeral

/-- A word that is a JSON constant or number has no other characters. -/
theorem isNumeric_of_scalar? {word : List Char} {v : Json} (h : scalar? word = some v) :
    ∀ c ∈ word, isNumeric c = true := by
  -- one of the three constants, or a number that takes all of the word
  unfold scalar? at h
  split at h
  · subst word
    exact List.all_eq_true.mp (by decide)
  · split at h
    · subst word
      exact List.all_eq_true.mp (by decide)
    · split at h
      · subst word
        exact List.all_eq_true.mp (by decide)
      · split at h
        · rename_i n hn
          obtain ⟨part, hw, hp⟩ := Numeral.reads_of_read? hn
          rw [hw, List.append_nil]
          exact hp
        · simp at h

/-! ## Whole numbers as they are written -/

/-- A number is written in digits. -/
theorem digit_of_mem_toDigits {n : Nat} {c : Char} (h : c ∈ Nat.toDigits 10 n) :
    Numeral.isDigit c = true := by
  have hc := Nat.isDigit_of_mem_toDigits (by decide) (by decide) h
  simp only [Char.isDigit, Bool.and_eq_true, decide_eq_true_eq] at hc
  simp only [Numeral.isDigit, Bool.and_eq_true, decide_eq_true_eq]
  exact hc

/-- The digits of a positive number do not start with a zero. -/
theorem head?_toDigits {n : Nat} (hn : 0 < n) : (Nat.toDigits 10 n).head? ≠ some '0' := by
  -- the first digit is that of a tenth of the number, until this is a digit itself
  induction n using Nat.strongRecOn with
  | _ n ih =>
    rw [Nat.toDigits_eq_if (by decide)]
    split
    · rename_i hlt
      have : ∀ m < 10, 0 < m → [Nat.digitChar m].head? ≠ some '0' := by decide
      exact this n hlt hn
    · obtain ⟨c, rest, hc⟩ := List.exists_cons_of_ne_nil (Nat.toDigits_ne_nil (n := n / 10) (b := 10))
      have hhead := ih (n / 10) (by omega) (by omega)
      rw [hc] at hhead ⊢
      exact hhead

/-- The digits of a number are read as such, with nothing left: zero is the only one to start with a
    zero. -/
theorem readWhole?_toDigits (n : Nat) :
    Numeral.readWhole? (Nat.toDigits 10 n) = some (Nat.toDigits 10 n, []) := by
  have hall : ∀ c ∈ Nat.toDigits 10 n, Numeral.isDigit c = true :=
    fun c hc => digit_of_mem_toDigits hc
  have hread : Numeral.readDigits? (Nat.toDigits 10 n) = some (Nat.toDigits 10 n, []) := by
    unfold Numeral.readDigits?
    rw [List.takeWhile_eq_self_iff.mpr hall, List.dropWhile_eq_nil_iff.mpr hall]
    split
    · exact absurd ‹_› Nat.toDigits_ne_nil
    · rfl
  unfold Numeral.readWhole?
  rw [hread]
  -- a single zero is read, and no other number starts with one
  rcases Nat.eq_zero_or_pos n with rfl | hn
  · rfl
  · split
    · rename_i heq
      have hhead := head?_toDigits hn
      simp only [Option.some.injEq, Prod.mk.injEq] at heq
      rw [heq.1] at hhead
      exact absurd rfl hhead
    · rfl

/-- They have the value of the number. -/
theorem natValue_toDigits (n : Nat) : Numeral.natValue (Nat.toDigits 10 n) = n := by
  have h := Nat.ofDigitChars_ten_toDigits (n := n)
  rw [Nat.ofDigitChars_eq_foldl] at h
  exact h

/-- A digit is no letter. -/
theorem isAlpha_of_isDigit {c : Char} (h : Numeral.isDigit c = true) : c.isAlpha = false := by
  cases halpha : c.isAlpha with
  | false => rfl
  | true =>
    -- the two ranges of codes do not meet
    have hbounds := Text.isAlpha_iff.mp halpha
    have h9 : '9'.val.toNat = 57 := rfl
    have hval : c.toNat = c.val.toNat := rfl
    simp only [Numeral.isDigit, Bool.and_eq_true, decide_eq_true_eq, Char.le_def,
      UInt32.le_iff_toNat_le] at h
    omega

/-- A word that starts with a letter is no number. -/
theorem read?_of_isAlpha {c : Char} (hc : c.isAlpha = true) (rest : List Char) :
    Numeral.read? (c :: rest) = none := by
  have hdigit : Numeral.isDigit c = false := by
    cases h : Numeral.isDigit c with
    | false => rfl
    | true =>
      rw [isAlpha_of_isDigit h] at hc
      exact absurd hc (by decide)
  have hwhole : Numeral.readWhole? (c :: rest) = none := by
    unfold Numeral.readWhole?
    split
    · rfl
    · simp [Numeral.readDigits?, hdigit]
  unfold Numeral.read?
  split
  rename_i h
  split at h
  · rename_i h'
    obtain ⟨rfl, -⟩ := List.cons.inj h'
    exact absurd hc (by decide)
  · cases h
    simp [hwhole]

/-- Digits, and a sign before them, are none of the constants. -/
theorem scalar?_numeral {word : List Char} {n : Numeral} {c : Char} (hhead : word.head? = some c)
    (hc : c.isAlpha = false) (h : Numeral.read? word = some (n, [])) :
    scalar? word = n.value? := by
  -- the constants start with letters
  have hne : ∀ (d : Char) (rest : List Char), d.isAlpha = true → word ≠ d :: rest := by
    rintro d rest hd rfl
    simp only [List.head?_cons, Option.some.injEq] at hhead
    rw [hhead, hc] at hd
    exact absurd hd (by decide)
  rw [scalar?, if_neg (hne _ _ (by decide)), if_neg (hne _ _ (by decide)),
    if_neg (hne _ _ (by decide)), h]

/-- A whole number that fits a numeral is read back from its text. -/
theorem scalar?_toString {n : Int} (hlow : -0x8000000000000000 ≤ n) (hhigh : n ≤ Numeral.maxCoefficient) :
    scalar? (toString n).toList = some (.integer n) := by
  rw [Int.toString_eq_repr, Int.repr_eq_if]
  -- with a sign before the digits or without
  by_cases hn : 0 ≤ n
  · obtain ⟨m, rfl⟩ := Int.eq_ofNat_of_zero_le hn
    obtain ⟨c, rest, hc⟩ := List.exists_cons_of_ne_nil (Nat.toDigits_ne_nil (n := m) (b := 10))
    have hdigit : Numeral.isDigit c = true :=
      digit_of_mem_toDigits (n := m) (by rw [hc]; exact List.mem_cons_self)
    have hread : Numeral.read? (Nat.toDigits 10 m) =
        some (⟨false, Nat.toDigits 10 m, none, none⟩, []) := by
      unfold Numeral.read?
      split
      rename_i negative body hsign
      split at hsign
      · rename_i heq
        rw [hc, List.cons.injEq] at heq
        rw [heq.1] at hdigit
        exact absurd hdigit (by decide)
      · simp only [Prod.mk.injEq] at hsign
        rw [← hsign.1, ← hsign.2, readWhole?_toDigits]
        rfl
    rw [if_pos hn, Int.toNat_natCast, Nat.toList_repr,
      scalar?_numeral (by rw [hc]; rfl) (isAlpha_of_isDigit hdigit) hread]
    simp only [Numeral.value?, natValue_toDigits]
    rw [if_pos (by simp; omega)]
  · obtain ⟨m, hm⟩ := Int.eq_ofNat_of_zero_le (show 0 ≤ -n by omega)
    have hread : Numeral.read? ('-' :: Nat.toDigits 10 m) =
        some (⟨true, Nat.toDigits 10 m, none, none⟩, []) := by
      simp only [Numeral.read?, readWhole?_toDigits]
      rfl
    rw [if_neg hn, hm, String.toList_append, Int.toNat_natCast, Nat.toList_repr,
      show "-".toList = ['-'] from rfl, List.singleton_append,
      scalar?_numeral rfl (by decide) hread]
    simp only [Numeral.value?, natValue_toDigits]
    rw [if_neg (by simp), if_pos (by simp; omega)]
    congr 2
    omega

/-! ## Decimals that were read -/

namespace Numeral

/-- Scaling by powers of ten gives a finite decimal, or none. -/
theorem isFinite_of_scale (steps : Nat) : ∀ (d : Decimal) (k : Int) (scaled : Decimal),
    scale d k steps = some scaled → scaled.magnitude < Decimal.infiniteMagnitude := by
  -- scaling stops at zero or where the number is found to be finite
  have hzero : ∀ d : Decimal, d.isZero = true → d.magnitude < Decimal.infiniteMagnitude := by
    intro d hd
    rw [beq_iff_eq.mp hd]
    decide
  -- on the steps that are left
  induction steps with
  | zero =>
    intro d k scaled h
    unfold scale at h
    split at h
    · obtain rfl := Option.some.inj h
      exact hzero _ ‹_›
    · simp at h
  | succ steps ih =>
    intro d k scaled h
    dsimp only [scale] at h
    split at h
    · split at h
      · obtain rfl := Option.some.inj h
        simpa [Decimal.isFinite] using ‹(d.scaleTen k).isFinite = true›
      · simp at h
    · split at h
      · obtain rfl := Option.some.inj h
        exact hzero _ ‹_›
      · split at h
        · simp at h
        · exact ih _ _ _ h

/-- A decimal that was read is finite. -/
theorem isNaN_of_value? {n : Numeral} {d : Decimal} (h : n.value? = some (.decimal d)) :
    d.isNaN = false := by
  dsimp only [value?] at h
  split at h
  · simp at h
  · split at h
    · simp at h
    · obtain ⟨d', hd, he⟩ := Option.map_eq_some_iff.mp h
      obtain rfl := Json.decimal.inj he
      obtain ⟨scaled, hs, rfl⟩ := Option.map_eq_some_iff.mp hd
      have hlt := isFinite_of_scale _ _ _ _ hs
      exact Decimal.isNaN_of_isFinite (Decimal.isFinite_ofMagnitude hlt)

end Numeral

/-- A decimal word that was read is a number. -/
theorem isNaN_of_scalar? {word : List Char} {d : Decimal} (h : scalar? word = some (.decimal d)) :
    d.isNaN = false := by
  unfold scalar? at h
  split at h
  · simp at h
  · split at h
    · simp at h
    · split at h
      · simp at h
      · split at h
        · exact Numeral.isNaN_of_value? h
        · simp at h

end Json

end Scim
