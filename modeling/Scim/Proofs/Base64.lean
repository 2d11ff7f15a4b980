import Scim.Base64

/-!
  # Texts of bytes

  A text is valid base64 if it is what some bytes are written as (`isValid_iff`).  Three bytes are as
  many bits as four characters of six bits each, so a group of characters is taken apart and put
  together by arithmetic; where the last group has fewer bytes, the bits that are left over are zero on
  either side.
-/

namespace Scim.Base64

/-! ## Writing bytes -/

/-- The character that stands for six bits. -/
def letter (n : Nat) : Char :=
  if n < 26 then Char.ofNat ('A'.toNat + n)
  else if n < 52 then Char.ofNat ('a'.toNat + (n - 26))
  else if n < 62 then Char.ofNat ('0'.toNat + (n - 52))
  else if n = 62 then '+'
  else '/'

/-- The characters that bytes are written as. -/
def encode : List UInt8 → List Char
  | [] => []
  | [a] => [letter (a.toNat / 4), letter (a.toNat % 4 * 16), '=', '=']
  | [a, b] =>
    [letter (a.toNat / 4), letter (a.toNat % 4 * 16 + b.toNat / 16), letter (b.toNat % 16 * 4), '=']
  | a :: b :: c :: rest =>
    letter (a.toNat / 4) :: letter (a.toNat % 4 * 16 + b.toNat / 16) ::
      letter (b.toNat % 16 * 4 + c.toNat / 64) :: letter (c.toNat % 64) :: encode rest

/-! ## Six bits -/

variable {c : Char} {n spare : Nat}

/-- Six bits are read back from their character. -/
theorem sextet?_letter : ∀ {n : Nat}, n < 64 → sextet? (letter n) = some n := by decide +kernel

/-- Beyond the first 128 characters none stands for bits. -/
theorem sextet?_eq_none (h : 128 ≤ c.toNat) : sextet? c = none := by
  -- the ranges of the alphabet end below
  have hbeyond : ∀ d : Char, d.toNat < 128 → ¬c ≤ d ∧ c ≠ d := by
    intro d hd
    have hle : c ≤ d ↔ c.toNat ≤ d.toNat := UInt32.le_iff_toNat_le
    constructor
    · rw [hle]
      omega
    · rintro rfl
      omega
  simp [sextet?, hbeyond 'Z' (by decide), hbeyond 'z' (by decide), hbeyond '9' (by decide),
    hbeyond '+' (by decide), hbeyond '/' (by decide)]

/-- A character of the alphabet stands for the bits that it is written for. -/
theorem eq_letter_of_sextet? (h : sextet? c = some n) : n < 64 ∧ c = letter n := by
  -- the alphabet lies among the first 128 characters, where all can be tried
  have hascii : ∀ k < 128, ∀ n ∈ sextet? (Char.ofNat k), n < 64 ∧ Char.ofNat k = letter n := by
    decide +kernel
  have hbound : c.toNat < 128 := by
    refine Nat.lt_of_not_le fun hbeyond => ?_
    rw [sextet?_eq_none hbeyond] at h
    cases h
  have hself := hascii c.toNat hbound n
  rw [Char.ofNat_toNat] at hself
  exact hself h

/-- The last bits of a character are not used just if it stands for a multiple. -/
theorem endsWithZeros_iff : endsWithZeros spare c = true ↔
    ∃ n, sextet? c = some n ∧ n % (1 <<< spare) = 0 := by
  unfold endsWithZeros
  cases sextet? c <;> simp

/-- The padding character is not in the alphabet. -/
theorem letter_ne_padding (h : n < 64) : letter n ≠ '=' := by
  intro heq
  have hpadding : sextet? '=' = none := by decide
  rw [← heq, sextet?_letter h] at hpadding
  cases hpadding

/-- A byte with the given upper and lower bits; `q` is what the upper ones count for. -/
theorem exists_byte (q upper lower : Nat) (hlower : lower < q)
    (h : upper * q + lower < 256) : ∃ a : UInt8, a.toNat / q = upper ∧ a.toNat % q = lower := by
  have hbyte : (UInt8.ofNat (upper * q + lower)).toNat = upper * q + lower :=
    UInt8.toNat_ofNat_of_lt h
  refine ⟨UInt8.ofNat (upper * q + lower), ?_⟩
  rw [hbyte]
  constructor
  · rw [Nat.mul_comm, Nat.mul_add_div (Nat.zero_lt_of_lt hlower), Nat.div_eq_of_lt hlower,
      Nat.add_zero]
  · rw [Nat.mul_add_mod', Nat.mod_eq_of_lt hlower]

/-! ## Groups -/

/-- What bytes are written as is valid, group by group. -/
theorem isValidChars_encode (bytes : List UInt8) : isValidChars (encode bytes) = true := by
  have hbyte : ∀ a : UInt8, a.toNat < 256 := fun a => a.toNat_lt_size
  fun_induction encode bytes with
  | case1 => rfl
  -- one byte: the second character has four bits to spare
  | case2 a =>
    have ha := hbyte a
    have hlast : endsWithZeros 4 (letter (a.toNat % 4 * 16)) = true :=
      endsWithZeros_iff.mpr ⟨_, sextet?_letter (by omega), Nat.mul_mod_left _ 16⟩
    rw [isValidChars, sextet?_letter (by omega), hlast]
    rfl
  -- two bytes: the third character has two bits to spare
  | case3 a b =>
    have ha := hbyte a
    have hb := hbyte b
    have hlast : endsWithZeros 2 (letter (b.toNat % 16 * 4)) = true :=
      endsWithZeros_iff.mpr ⟨_, sextet?_letter (by omega), Nat.mul_mod_left _ 4⟩
    rw [isValidChars, sextet?_letter (by omega), sextet?_letter (by omega), hlast]
    · rfl
    · exact letter_ne_padding (by omega)
  | case4 a b c rest ih =>
    have ha := hbyte a
    have hb := hbyte b
    have hc := hbyte c
    rw [isValidChars, sextet?_letter (by omega), sextet?_letter (by omega), sextet?_letter (by omega),
      sextet?_letter (by omega), ih]
    · rfl
    · exact fun hpadding _ _ => letter_ne_padding (by omega) hpadding
    · exact fun hpadding _ => letter_ne_padding (by omega) hpadding

/-- What is valid is what some bytes are written as; each group gives its own. -/
theorem exists_encode {cs : List Char} (h : isValidChars cs = true) :
    ∃ bytes, cs = encode bytes := by
  fun_induction isValidChars cs with
  | case1 => exact ⟨[], rfl⟩
  | case2 a b =>
    simp only [Bool.and_eq_true, Option.isSome_iff_exists, endsWithZeros_iff] at h
    obtain ⟨⟨m, hm⟩, n, hn, hzero⟩ := h
    obtain ⟨hm, rfl⟩ := eq_letter_of_sextet? hm
    obtain ⟨hn, rfl⟩ := eq_letter_of_sextet? hn
    obtain ⟨a, ha, ha'⟩ := exists_byte 4 m (n / 16) (by omega) (by omega)
    -- the spare bits are zero, so nothing is lost when they are cut off
    have hspare : n / 16 * 16 = n := Nat.div_mul_cancel (Nat.dvd_of_mod_eq_zero hzero)
    exact ⟨[a], by rw [encode, ha, ha', hspare]⟩
  | case3 a b c =>
    simp only [Bool.and_eq_true, Option.isSome_iff_exists, endsWithZeros_iff] at h
    obtain ⟨⟨⟨m, hm⟩, n, hn⟩, k, hk, hzero⟩ := h
    obtain ⟨hm, rfl⟩ := eq_letter_of_sextet? hm
    obtain ⟨hn, rfl⟩ := eq_letter_of_sextet? hn
    obtain ⟨hk, rfl⟩ := eq_letter_of_sextet? hk
    obtain ⟨a, ha, ha'⟩ := exists_byte 4 m (n / 16) (by omega) (by omega)
    obtain ⟨b, hb, hb'⟩ := exists_byte 16 (n % 16) (k / 4) (by omega) (by omega)
    have hspare : k / 4 * 4 = k := Nat.div_mul_cancel (Nat.dvd_of_mod_eq_zero hzero)
    exact ⟨[a, b], by rw [encode, ha, ha', hb, hb', Nat.div_add_mod', hspare]⟩
  -- four characters are three bytes, and the rest is a text of bytes again
  | case4 a b c d rest _ _ ih =>
    simp only [Bool.and_eq_true, Option.isSome_iff_exists] at h
    obtain ⟨⟨⟨⟨⟨m, hm⟩, n, hn⟩, k, hk⟩, l, hl⟩, hrest⟩ := h
    obtain ⟨hm, rfl⟩ := eq_letter_of_sextet? hm
    obtain ⟨hn, rfl⟩ := eq_letter_of_sextet? hn
    obtain ⟨hk, rfl⟩ := eq_letter_of_sextet? hk
    obtain ⟨hl, rfl⟩ := eq_letter_of_sextet? hl
    obtain ⟨bytes, rfl⟩ := ih hrest
    obtain ⟨a, ha, ha'⟩ := exists_byte 4 m (n / 16) (by omega) (by omega)
    obtain ⟨b, hb, hb'⟩ := exists_byte 16 (n % 16) (k / 4) (by omega) (by omega)
    obtain ⟨c, hc, hc'⟩ := exists_byte 64 (k % 4) l (by omega) (by omega)
    exact ⟨a :: b :: c :: bytes, by
      rw [encode, ha, ha', hb, hb', hc, hc', Nat.div_add_mod', Nat.div_add_mod']⟩
  | case5 => simp at h

/-- A text is valid if it is what some bytes are written as. -/
theorem isValid_iff {s : String} : isValid s = true ↔ ∃ bytes, s.toList = encode bytes := by
  constructor
  · exact exists_encode
  · rintro ⟨bytes, hs⟩
    rw [isValid, hs]
    exact isValidChars_encode bytes

end Scim.Base64
