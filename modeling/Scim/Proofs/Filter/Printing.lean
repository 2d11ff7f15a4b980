import Scim.Proofs.Filter.Brackets
import Scim.Proofs.Filter.Words

/-!
  # Texts within texts

  A canonical text is put together from words, blanks and brackets.  To know its tokens, every part
  is looked at by itself: `Reads P cs` says that the text `cs`, wherever it stands and whatever
  literals were put aside before it, is read as tokens with the property `P`, as long as the text
  goes on after it with a bracket, a blank, or not at all.  The property may depend on the literals
  of the whole text.

  A word reads as one token (`Reads.word`); the rest says how texts that read as something are put
  together (`Reads.append`, `Reads.blank`, `Reads.bracket`), and that they make a whole text
  (`Reads.mask`).
-/

namespace Scim

/-- A property of tokens, given the literals that their words stand for. -/
abbrev TokenProp := Masked → List Token → Prop

/-- Whether a text goes on with something that ends a word, or not at all. -/
def Ends (rest : List Char) : Prop := ∀ c ∈ rest.head?, Masked.isUnbroken c = false

/-- A text reads as tokens with a property wherever it stands.  It holds no character U+0000. -/
def Reads (P : TokenProp) (cs : List Char) : Prop :=
  Masked.border ∉ cs ∧ ∀ n, ∃ chars lits, Masked.maskFrom n cs = (chars, lits, none) ∧
    ∀ m : Masked, m.Holds n lits → ∀ (pos : Nat) (rest : List Char), Ends rest →
      ∃ tokens, P m tokens ∧
        Token.readFrom pos [] (chars ++ rest) =
          tokens ++ Token.readFrom (pos + chars.length) [] rest

namespace Reads

variable {P Q : TokenProp} {cs a b : List Char}

/-- What reads as tokens with a property reads as tokens with a weaker one. -/
theorem mono (h : Reads P cs) (hPQ : ∀ m tokens, P m tokens → Q m tokens) : Reads Q cs := by
  refine ⟨h.1, fun n => ?_⟩
  obtain ⟨chars, lits, hmask, hread⟩ := h.2 n
  refine ⟨chars, lits, hmask, fun m hm pos rest hrest => ?_⟩
  obtain ⟨tokens, hP, htokens⟩ := hread m hm pos rest hrest
  exact ⟨tokens, hPQ m tokens hP, htokens⟩

/-- A word reads as one token that stands for it. -/
theorem word (h : isWord cs) (hne : cs ≠ []) :
    Reads (fun m tokens => ∃ word start, tokens = [.word word start] ∧ m.Spells word cs) cs := by
  refine ⟨border_not_mem_of_isWord h, fun n => ?_⟩
  obtain ⟨word, lits, hmask, hspell⟩ := Masked.spells_of_isWord n cs h
  refine ⟨word, lits, hmask, fun m hm pos rest hrest => ?_⟩
  have hs := hspell m hm
  have hword : word ≠ [] := fun hw => hne (hs.eq_nil_iff.mp hw)
  exact ⟨[.word word pos], ⟨word, pos, rfl, hs⟩, Masked.readFrom_word hs.isUnbroken hword hrest pos⟩

/-- What starts with a blank or bracket may follow anything. -/
theorem append {c : Char} (hc : Masked.isUnbroken c = false) (hquote : c ≠ '"') (ha : Reads P a)
    (hb : Reads Q (c :: b)) :
    Reads (fun m tokens => ∃ left right, tokens = left ++ right ∧ P m left ∧ Q m right)
      (a ++ c :: b) := by
  have hborder : Masked.border ∉ a ++ c :: b := fun hmem =>
    (List.mem_append.mp hmem).elim ha.1 hb.1
  refine ⟨hborder, fun n => ?_⟩
  obtain ⟨ca, la, hmaska, hreada⟩ := ha.2 n
  obtain ⟨cb, lb, hmaskb, hreadb⟩ := hb.2 (n + la.length)
  have hmask := Masked.maskFrom_append n a (c :: b) hmaska
  rw [hmaskb] at hmask
  refine ⟨ca ++ cb, la ++ lb, hmask, fun m hm pos rest hrest => ?_⟩
  obtain ⟨hma, hmb⟩ := Masked.holds_append.mp hm
  -- what follows the first text starts with `c`, masked or not
  have hends : Ends (cb ++ rest) := by
    rw [Masked.maskFrom_cons hquote] at hmaskb
    simp only [Prod.mk.injEq] at hmaskb
    obtain ⟨rfl, -, -⟩ := hmaskb
    intro d hd
    obtain rfl : c = d := by simpa using hd
    exact hc
  obtain ⟨left, hP, hleft⟩ := hreada m hma pos (cb ++ rest) hends
  obtain ⟨right, hQ, hright⟩ := hreadb m hmb (pos + ca.length) rest hrest
  refine ⟨left ++ right, ⟨left, right, rfl, hP, hQ⟩, ?_⟩
  rw [List.append_assoc, hleft, hright, List.append_assoc, List.length_append, Nat.add_assoc]

/-- A blank adds nothing. -/
theorem blank (h : Reads P cs) : Reads P (' ' :: cs) := by
  have hborder : Masked.border ∉ ' ' :: cs := fun hmem =>
    (List.mem_cons.mp hmem).elim (by decide) h.1
  refine ⟨hborder, fun n => ?_⟩
  obtain ⟨chars, lits, hmask, hread⟩ := h.2 n
  refine ⟨' ' :: chars, lits, ?_, fun m hm pos rest hrest => ?_⟩
  · rw [Masked.maskFrom_cons (by decide), hmask]
  · obtain ⟨tokens, hP, htokens⟩ := hread m hm (pos + 1) rest hrest
    refine ⟨tokens, hP, ?_⟩
    have hblank : Token.readFrom pos [] (' ' :: (chars ++ rest)) =
        Token.readFrom (pos + 1) [] (chars ++ rest) := rfl
    rw [List.cons_append, hblank, htokens, List.length_cons, Nat.add_assoc, Nat.add_comm 1]

/-- Brackets around a text are the brackets around its tokens. -/
theorem bracket {o c : Char} (h : Token.Pairs o c) (hcs : Reads P cs) :
    Reads (fun m tokens => ∃ i inner j, tokens = .opening o i :: (inner ++ [.closing c j]) ∧
      P m inner) (o :: (cs ++ [c])) := by
  have ho : Token.isOpening o = true ∧ o ≠ '"' ∧ Masked.border ≠ o := by cases h <;> decide
  have hc : Token.isOpening c = false ∧ Token.isClosing c = true ∧ c ≠ '"' ∧ Masked.border ≠ c := by
    cases h <;> decide
  have hborder : Masked.border ∉ o :: (cs ++ [c]) := by
    simp only [List.mem_cons, List.mem_append, List.not_mem_nil, or_false, not_or]
    exact ⟨ho.2.2, hcs.1, hc.2.2.2⟩
  refine ⟨hborder, fun n => ?_⟩
  obtain ⟨chars, lits, hmask, hread⟩ := hcs.2 n
  have happ := Masked.maskFrom_append n cs [c] hmask
  rw [Masked.maskFrom_cons hc.2.2.1, Masked.maskFrom_nil, List.append_nil] at happ
  refine ⟨o :: (chars ++ [c]), lits, ?_, fun m hm pos rest hrest => ?_⟩
  · rw [Masked.maskFrom_cons ho.2.1, happ]
  · have hends : Ends (c :: rest) := by
      intro d hd
      obtain rfl : c = d := by simpa using hd
      simp [Masked.isUnbroken, hc.2.1]
    obtain ⟨inner, hP, hinner⟩ := hread m hm (pos + 1) (c :: rest) hends
    refine ⟨.opening o pos :: (inner ++ [.closing c (pos + 1 + chars.length)]),
      ⟨pos, inner, _, rfl, hP⟩, ?_⟩
    -- one token for each bracket, and those of the text between them
    have hopen : Token.readFrom pos [] (o :: (chars ++ c :: rest)) =
        .opening o pos :: Token.readFrom (pos + 1) [] (chars ++ c :: rest) := by
      rw [Token.readFrom, if_pos ho.1]
      rfl
    have hclose : Token.readFrom (pos + 1 + chars.length) [] (c :: rest) =
        .closing c (pos + 1 + chars.length) ::
          Token.readFrom (pos + 1 + chars.length + 1) [] rest := by
      rw [Token.readFrom, hc.1, if_neg (by decide), if_pos hc.2.1]
      rfl
    rw [List.cons_append, List.append_assoc, List.singleton_append, hopen, hinner, hclose,
      List.length_cons, List.length_append, List.length_singleton]
    have hpos : pos + 1 + chars.length + 1 = pos + (chars.length + 1 + 1) := by omega
    rw [hpos]
    simp

/-- The tokens of a whole text. -/
theorem mask (h : Reads P cs) :
    (Masked.mask cs).2 = none ∧ P (Masked.mask cs).1 (Token.readAll (Masked.mask cs).1) := by
  obtain ⟨chars, lits, hmask, hread⟩ := h.2 0
  have hm := Masked.holds_mask cs
  have hwhole : Masked.mask cs = (⟨chars, lits⟩, none) := by
    rw [Masked.mask, hmask]
  rw [hmask] at hm
  obtain ⟨tokens, hP, htokens⟩ := hread _ hm 0 [] (by simp [Ends])
  rw [hwhole] at hP ⊢
  refine ⟨rfl, ?_⟩
  -- behind the whole text there is nothing to read
  have hnil : ∀ pos, Token.readFrom pos [] [] = [] := fun pos => rfl
  rw [List.append_nil, hnil, List.append_nil] at htokens
  rw [Token.readAll, htokens]
  exact hP

end Reads

end Scim
