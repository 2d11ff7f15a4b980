import Scim.Proofs.Filter.Words

/-!
  # Where tokens stand

  Tokens and blanks, one after the other, are the characters that they are read from (`Lays`,
  `lays_readAll`).  A token starts where the text before it ends, and there the characters part: on
  one side of the place stands a bracket or a blank, or nothing at all (`Parted`).  So every
  run of tokens spans a part of the text that can be cut out (`Lays.spans`).

  The places may be counted in bytes as well.  Then a place could lie inside of a character, and
  cutting there would fail (`sliceBytes?`).  No token has such a place: those counted in bytes are
  those counted in characters (`readAllBytes_eq`), and cutting at them gives the same part
  (`Spans.sliceBytes?_eq`).
-/

namespace Scim.Token

variable {front a b cs rest span : List Char} {t first last : Token} {tokens slice : List Token}

/-! ## Breaks -/

/-- Brackets and blanks. -/
def Breaks (c : Char) : Prop := Masked.isUnbroken c = false

/-- A quote is no break. -/
theorem Breaks.ne_quote {c : Char} (h : Breaks c) : c ≠ '"' := by
  rintro rfl
  have hunbroken : Masked.isUnbroken '"' = true := by decide
  exact absurd (h.symm.trans hunbroken) Bool.false_ne_true

theorem breaks_of_isOpening {c : Char} (h : isOpening c = true) : Breaks c := by
  simp [Breaks, Masked.isUnbroken, h]

theorem breaks_of_isClosing {c : Char} (h : isClosing c = true) : Breaks c := by
  simp [Breaks, Masked.isUnbroken, h]

/-- Characters part where a break stands, or where there is nothing more. -/
inductive Parted : List Char → List Char → Prop
  | start (b : List Char) : Parted [] b
  | stop (a : List Char) : Parted a []
  | behind {c : Char} (a b : List Char) : Breaks c → Parted (a ++ [c]) b
  | before {c : Char} (a b : List Char) : Breaks c → Parted a (c :: b)

/-- What stands further before makes no difference. -/
theorem Parted.of_append_left (h : Parted (a ++ b) cs) : Parted b cs := by
  generalize hab : a ++ b = ab at h
  cases h with
  | start =>
    obtain ⟨-, rfl⟩ := List.append_eq_nil_iff.mp hab
    exact .start cs
  | stop => exact .stop b
  | before _ cs hc => exact .before b cs hc
  -- the break is the last character, so it is one of the nearer part unless this is empty
  | @behind c front _ hc =>
    rcases List.eq_nil_or_concat b with rfl | ⟨b, d, rfl⟩
    · exact .start cs
    · rw [List.concat_eq_append, ← List.append_assoc] at hab
      obtain ⟨-, hlast⟩ := List.append_inj' hab rfl
      obtain rfl : d = c := by simpa using hlast
      rw [List.concat_eq_append]
      exact .behind b cs hc

/-- Nor does what stands further behind. -/
theorem Parted.of_append_right (h : Parted a (b ++ cs)) : Parted a b := by
  cases b with
  | nil => exact .stop a
  | cons d b =>
    generalize hbc : d :: b ++ cs = bc at h
    cases h with
    | start => exact .start _
    | stop => cases hbc
    | behind a _ hc => exact .behind a _ hc
    | before _ _ hc =>
      obtain ⟨rfl, -⟩ := List.cons.inj hbc
      exact .before a b hc

/-- What stands before a part that is not empty does not matter. -/
theorem Parted.append_left (h : Parted b cs) (hne : b ≠ []) (a : List Char) :
    Parted (a ++ b) cs := by
  cases h with
  | start => exact absurd rfl hne
  | stop => exact .stop _
  | behind b _ hc =>
    rw [← List.append_assoc]
    exact .behind _ cs hc
  | before _ cs hc => exact .before _ cs hc

/-! ## Tokens and blanks -/

/-- The characters of a token. -/
def chars : Token → List Char
  | .opening bracket _ | .closing bracket _ => [bracket]
  | .word chars _ => chars

theorem stop_eq (t : Token) : t.stop = t.start + t.chars.length := by
  cases t <;> rfl

/-- A token has characters, and none of them is blank. -/
def Solid (t : Token) : Prop := t.chars ≠ [] ∧ ∀ c ∈ t.chars, Text.isBlank c = false

/-- Blanks and tokens, one after the other, are the characters behind `front`; every token starts
    where what stands before it ends, and is parted from what stands around it. -/
inductive Lays : List Char → List Char → List Token → Prop
  | nil (front : List Char) : Lays front [] []
  | blank {front rest : List Char} {c : Char} {tokens : List Token} :
    Text.isBlank c = true → Lays (front ++ [c]) rest tokens → Lays front (c :: rest) tokens
  | token {front rest : List Char} {t : Token} {tokens : List Token} :
    t.start = front.length → t.Solid → Parted front (t.chars ++ rest) →
    Parted (front ++ t.chars) rest → Lays (front ++ t.chars) rest tokens →
    Lays front (t.chars ++ rest) (t :: tokens)

/-! ## Reading lays tokens -/

/-- The pending word is laid, if what follows ends it. -/
theorem lays_flush {pending : List Char} (hfront : ∀ b, Parted front b)
    (hpending : ∀ c ∈ pending, Masked.isUnbroken c = true) (hends : Parted (front ++ pending) rest)
    (h : Lays (front ++ pending) rest tokens) :
    Lays front (pending ++ rest) (flush pending (front ++ pending).length ++ tokens) := by
  unfold flush
  cases pending with
  | nil => simpa using h
  | cons c pending =>
    have hstart : (front ++ c :: pending).length - (c :: pending).length = front.length := by
      rw [List.length_append]
      omega
    have hsolid : Solid (.word (c :: pending) front.length) := by
      refine ⟨List.cons_ne_nil _ _, fun d hd => ?_⟩
      have hunbroken := hpending d hd
      simp only [Masked.isUnbroken, Bool.and_eq_true, Bool.not_eq_true'] at hunbroken
      exact hunbroken.2
    rw [if_neg (by simp), hstart]
    exact .token rfl hsolid (hfront _) hends h

/-- A bracket is laid by itself, as it parts what stands around it. -/
theorem lays_bracket {c : Char} (hc : isOpening c = true ∨ isClosing c = true)
    (hchars : t.chars = [c]) (hstart : t.start = front.length)
    (h : Lays (front ++ [c]) rest tokens) : Lays front (c :: rest) (t :: tokens) := by
  have hbreaks : Breaks c := hc.elim breaks_of_isOpening breaks_of_isClosing
  have hblank : Text.isBlank c = false := by
    rcases hc with h | h <;> rcases Bool.or_eq_true_iff.mp h with h | h <;> rw [beq_iff_eq.mp h] <;>
      decide
  have hsolid : t.Solid := by
    refine ⟨by simp [hchars], fun d hd => ?_⟩
    rw [hchars] at hd
    rwa [List.mem_singleton.mp hd]
  have hlays : Lays front (t.chars ++ rest) (t :: tokens) := by
    refine .token hstart hsolid ?_ ?_ ?_ <;> rw [hchars]
    · exact .before front rest hbreaks
    · exact .behind front rest hbreaks
    · exact h
  rwa [hchars] at hlays

/-- What is pending stands behind a break, and what is to come lays the other tokens. -/
theorem lays_readFrom (cs : List Char) : ∀ (front pending : List Char), (∀ b, Parted front b) →
    (∀ c ∈ pending, Masked.isUnbroken c = true) →
    Lays front (pending ++ cs) (readFrom (front ++ pending).length pending cs) := by
  induction cs with
  | nil =>
    intro front pending hfront hpending
    have hlays := lays_flush hfront hpending (.stop _) (.nil _)
    rwa [List.append_nil (flush _ _)] at hlays
  | cons c rest ih =>
    intro front pending hfront hpending
    cases hc : Masked.isUnbroken c with
    | true =>
      -- the character goes to the pending word
      have hgoes : readFrom (front ++ pending).length pending (c :: rest) =
          readFrom ((front ++ pending).length + 1) (pending ++ [c]) rest :=
        Masked.readFrom_append (fun d hd => List.mem_singleton.mp hd ▸ hc) _ pending rest
      have hword : ∀ d ∈ pending ++ [c], Masked.isUnbroken d = true := by
        intro d hd
        rcases List.mem_append.mp hd with hd | hd
        · exact hpending d hd
        · rwa [List.mem_singleton.mp hd]
      have hlays := ih front (pending ++ [c]) hfront hword
      rw [← List.append_assoc, List.length_append, List.length_singleton, List.append_assoc,
        List.singleton_append] at hlays
      rwa [hgoes]
    | false =>
      -- the break ends the pending word, and the next one starts behind it
      have hbehind : ∀ b, Parted (front ++ pending ++ [c]) b := fun b => .behind _ b hc
      have hrest := ih (front ++ pending ++ [c]) [] hbehind (by simp)
      rw [List.append_nil, List.nil_append, List.length_append, List.length_singleton] at hrest
      have hends : Parted (front ++ pending) (c :: rest) := .before _ _ hc
      unfold readFrom
      by_cases ho : isOpening c = true
      · rw [if_pos ho]
        exact lays_flush hfront hpending hends (lays_bracket (.inl ho) rfl rfl hrest)
      by_cases hcl : isClosing c = true
      · rw [if_neg ho, if_pos hcl]
        exact lays_flush hfront hpending hends (lays_bracket (.inr hcl) rfl rfl hrest)
      have hb : Text.isBlank c = true := by simpa [Masked.isUnbroken, ho, hcl] using hc
      rw [if_neg ho, if_neg hcl, if_pos hb]
      exact lays_flush hfront hpending hends (.blank hb hrest)

/-- The tokens of a text are laid from its beginning. -/
theorem lays_readAll (m : Masked) : Lays [] m.chars (readAll m) :=
  lays_readFrom m.chars [] [] .start (by simp)

/-! ## Runs of tokens -/

/-- Without tokens there are blanks only. -/
theorem Lays.isBlank (h : Lays front cs []) : ∀ c ∈ cs, Text.isBlank c = true := by
  generalize hnone : ([] : List Token) = none at h
  induction h with
  | nil => simp
  | blank hc _ ih => exact List.forall_mem_cons.mpr ⟨hc, ih hnone⟩
  | token => cases hnone

/-- The tokens behind others are laid behind their characters. -/
theorem Lays.drop {before : List Token} (h : Lays front cs (before ++ tokens)) :
    ∃ skipped rest, cs = skipped ++ rest ∧ Lays (front ++ skipped) rest tokens := by
  generalize hall : before ++ tokens = all at h
  induction h generalizing before with
  | nil front =>
    obtain ⟨rfl, rfl⟩ := List.append_eq_nil_iff.mp hall
    exact ⟨[], [], rfl, by simpa using Lays.nil front⟩
  | @blank front rest c _ _ _ ih =>
    obtain ⟨skipped, rest, rfl, hlays⟩ := ih hall
    rw [List.append_assoc, List.singleton_append] at hlays
    exact ⟨c :: skipped, rest, rfl, hlays⟩
  -- a token is skipped if it is one of those before
  | @token front rest t _ hstart hsolid hfront hend hrest ih =>
    cases before with
    | nil =>
      obtain rfl : tokens = _ := hall
      exact ⟨[], _, rfl, by simpa using Lays.token hstart hsolid hfront hend hrest⟩
    | cons t' before =>
      obtain ⟨skipped, rest, rfl, hlays⟩ := ih (List.cons.inj hall).2
      rw [List.append_assoc] at hlays
      exact ⟨t.chars ++ skipped, rest, by simp, hlays⟩

/-- Behind blanks stands the first token. -/
theorem Lays.uncons (h : Lays front cs (t :: tokens)) : ∃ blanks rest,
    cs = blanks ++ (t.chars ++ rest) ∧ (∀ c ∈ blanks, Text.isBlank c = true) ∧
      t.start = (front ++ blanks).length ∧ t.Solid ∧
      Parted (front ++ blanks) (t.chars ++ rest) ∧ Parted (front ++ blanks ++ t.chars) rest ∧
      Lays (front ++ blanks ++ t.chars) rest tokens := by
  generalize hall : t :: tokens = all at h
  induction h with
  | nil => cases hall
  | @blank front rest c _ hc _ ih =>
    obtain ⟨blanks, rest, rfl, hblanks, hlaid⟩ := ih hall
    rw [List.append_assoc, List.singleton_append] at hlaid
    exact ⟨c :: blanks, rest, rfl, List.forall_mem_cons.mpr ⟨hc, hblanks⟩, hlaid⟩
  | @token front rest t' _ hstart hsolid hfront hend hrest _ =>
    obtain ⟨rfl, rfl⟩ := List.cons.inj hall
    refine ⟨[], rest, rfl, by simp, ?_⟩
    rw [List.append_nil]
    exact ⟨hstart, hsolid, hfront, hend, hrest⟩

/-- Tokens from `first` to `last` are read from the characters `span` with `front` before them and
    `rest` behind, and these characters can be cut out. -/
structure Spans (front span rest : List Char) (first last : Token) : Prop where
  start : first.start = front.length
  stop : last.stop = front.length + span.length
  before : Parted front (span ++ rest)
  behind : Parted span rest
  begins : first.Solid ∧ ∃ more, span = first.chars ++ more ∧ Parted first.chars more
  ends : last.Solid ∧ ∃ more, span = more ++ last.chars ∧ Parted more last.chars

/-- A run of tokens spans what stands between blanks and the tokens after it. -/
theorem Lays.spans {more : List Token} (hlast : (t :: more).getLast? = some last) : ∀ {front cs},
    Lays front cs (t :: more ++ tokens) → ∃ blanks span rest, cs = blanks ++ (span ++ rest) ∧
      (∀ c ∈ blanks, Text.isBlank c = true) ∧ Spans (front ++ blanks) span rest t last ∧
      Lays (front ++ blanks ++ span) rest tokens := by
  induction more generalizing t with
  | nil =>
    intro front cs h
    obtain rfl : t = last := by simpa using hlast
    obtain ⟨blanks, rest, rfl, hblanks, hstart, hsolid, hfront, hend, hrest⟩ := h.uncons
    refine ⟨blanks, t.chars, rest, rfl, hblanks, ?_, hrest⟩
    exact {
      start := hstart
      stop := by rw [stop_eq, hstart]
      before := hfront
      behind := hend.of_append_left
      begins := ⟨hsolid, [], by simp, .stop _⟩
      ends := ⟨hsolid, [], rfl, .start _⟩ }
  | cons u more ih =>
    intro front cs h
    obtain ⟨blanks, rest, rfl, hblanks, hstart, hsolid, hfront, hend, hrest⟩ := h.uncons
    have hlast' : (u :: more).getLast? = some last := by rwa [List.getLast?_cons_cons] at hlast
    obtain ⟨between, span, rest, rfl, -, hspan, hlays⟩ := ih hlast' hrest
    obtain ⟨hlastSolid, inner, hinner, hparted⟩ := hspan.ends
    -- the last token has characters, so the rest of the run has some
    have hne : span ≠ [] := by
      rw [hinner]
      exact List.append_ne_nil_of_right_ne_nil _ hlastSolid.1
    refine ⟨blanks, t.chars ++ (between ++ span), rest, by simp, hblanks, ?_, ?_⟩
    · refine ⟨hstart, ?_, by simpa using hfront, ?_, ⟨hsolid, _, rfl, ?_⟩, ⟨hlastSolid,
        t.chars ++ (between ++ inner), by simp [hinner], ?_⟩⟩
      · rw [hspan.stop]
        simp only [List.length_append]
        omega
      · rw [← List.append_assoc]
        exact hspan.behind.append_left hne _
      · rw [← List.append_assoc] at hend
        exact hend.of_append_left.of_append_right
      · -- before a last token that is alone in its span the text was parted already
        rw [← List.append_assoc]
        by_cases hnil : inner = []
        · have hbefore := hspan.before
          rw [hinner, hnil, List.nil_append, List.append_assoc _ _ between] at hbefore
          rw [hnil, List.append_nil]
          exact hbefore.of_append_left.of_append_right
        · exact hparted.append_left hnil _
    · rw [← List.append_assoc, ← List.append_assoc]
      exact hlays

/-- A word with what stands around it. -/
def WordAt (cs word : List Char) (start : Nat) : Prop :=
  ∃ before after, cs = before ++ (word ++ after) ∧ before.length = start ∧
    Parted before (word ++ after) ∧ Parted word after

/-- Every word of a text stands there with breaks around it. -/
theorem wordAt_of_mem_readAll {m : Masked} {word : List Char} {start : Nat}
    (h : .word word start ∈ readAll m) : WordAt m.chars word start := by
  obtain ⟨before, after, htokens⟩ := List.append_of_mem h
  have hlays := lays_readAll m
  rw [htokens] at hlays
  obtain ⟨skipped, rest, hchars, hlays⟩ := hlays.drop
  obtain ⟨blanks, rest, rfl, -, hstart, -, hfront, hend, -⟩ := hlays.uncons
  rw [List.nil_append] at hstart hfront hend
  exact ⟨skipped ++ blanks, rest, by simp [hchars, chars], hstart.symm, hfront, hend.of_append_left⟩

/-! ## Places in bytes -/

/-- How many bytes characters take. -/
def byteLength : List Char → Nat
  | [] => 0
  | c :: rest => c.utf8Size + byteLength rest

/-- Bytes add up. -/
theorem byteLength_append (a b : List Char) :
    byteLength (a ++ b) = byteLength a + byteLength b := by
  induction a with
  | nil => exact (Nat.zero_add _).symm
  | cons c a ih => rw [List.cons_append, byteLength, byteLength, ih, Nat.add_assoc]

/-- What is left behind some bytes, unless they end inside of a character or there are fewer. -/
def dropBytes? (n : Nat) : List Char → Option (List Char)
  | [] => if n = 0 then some [] else none
  | c :: rest =>
    if n = 0 then some (c :: rest)
    else if c.utf8Size ≤ n then dropBytes? (n - c.utf8Size) rest else none

/-- The characters of some bytes, unless they end inside of a character or there are fewer. -/
def takeBytes? (n : Nat) : List Char → Option (List Char)
  | [] => if n = 0 then some [] else none
  | c :: rest =>
    if n = 0 then some []
    else if c.utf8Size ≤ n then (takeBytes? (n - c.utf8Size) rest).map (c :: ·) else none

/-- The characters between two places in bytes, unless one of them lies inside of a character or
    behind the end. -/
def sliceBytes? (cs : List Char) (start stop : Nat) : Option (List Char) :=
  if start ≤ stop then (dropBytes? start cs).bind (takeBytes? (stop - start)) else none

/-- The pending word as a token, its place in bytes. -/
def flushBytes (pending : List Char) (stop : Nat) : List Token :=
  if pending.isEmpty then [] else [.word pending (stop - byteLength pending)]

/-- The tokens of what follows a pending word, from the place `pos` in bytes on. -/
def readBytesFrom (pos : Nat) (pending : List Char) : List Char → List Token
  | [] => flushBytes pending pos
  | c :: rest =>
    if isOpening c then
      flushBytes pending pos ++ .opening c pos :: readBytesFrom (pos + c.utf8Size) [] rest
    else if isClosing c then
      flushBytes pending pos ++ .closing c pos :: readBytesFrom (pos + c.utf8Size) [] rest
    else if Text.isBlank c then
      flushBytes pending pos ++ readBytesFrom (pos + c.utf8Size) [] rest
    else readBytesFrom (pos + c.utf8Size) (pending ++ [c]) rest

/-- The tokens of a masked text, their places in bytes. -/
def readAllBytes (m : Masked) : List Token := readBytesFrom 0 [] m.chars

/-- Where a token ends, in bytes. -/
def stopBytes (t : Token) : Nat := t.start + byteLength t.chars

/-- The text that tokens were read from, cut out by places in bytes; nothing if it can not be cut
    out there. -/
def quoteBytes (m : Masked) (tokens : List Token) : String :=
  match tokens.head?, tokens.getLast? with
  | some first, some last =>
    ((sliceBytes? m.chars first.start last.stopBytes).map m.unmaskText).getD ""
  | _, _ => ""

/-- The token, its place in a text counted in bytes. -/
def inBytes (cs : List Char) : Token → Token
  | .opening bracket start => .opening bracket (byteLength (cs.take start))
  | .closing bracket start => .closing bracket (byteLength (cs.take start))
  | .word chars start => .word chars (byteLength (cs.take start))

/-- The start of a token in bytes counts the characters before it. -/
theorem start_inBytes (cs : List Char) (t : Token) :
    (t.inBytes cs).start = byteLength (cs.take t.start) := by
  cases t <;> rfl

theorem chars_inBytes (cs : List Char) (t : Token) : (t.inBytes cs).chars = t.chars := by
  cases t <;> rfl

/-- Cutting behind whole characters succeeds. -/
theorem dropBytes?_append (a b : List Char) : dropBytes? (byteLength a) (a ++ b) = some b := by
  induction a with
  | nil => cases b <;> rfl
  | cons c a ih =>
    have hsize := c.utf8Size_pos
    rw [List.cons_append, dropBytes?, byteLength, if_neg (by omega), if_pos (by omega),
      Nat.add_sub_cancel_left, ih]

/-- Taking whole characters succeeds. -/
theorem takeBytes?_append (a b : List Char) : takeBytes? (byteLength a) (a ++ b) = some a := by
  induction a with
  | nil => cases b <;> rfl
  | cons c a ih =>
    have hsize := c.utf8Size_pos
    rw [List.cons_append, takeBytes?, byteLength, if_neg (by omega), if_pos (by omega),
      Nat.add_sub_cancel_left, ih, Option.map_some]

/-- What stands between whole characters can be cut out. -/
theorem sliceBytes?_append (a b c : List Char) :
    sliceBytes? (a ++ (b ++ c)) (byteLength a) (byteLength (a ++ b)) = some b := by
  rw [sliceBytes?, byteLength_append, if_pos (by omega), Nat.add_sub_cancel_left, dropBytes?_append,
    Option.bind_some, takeBytes?_append]

/-- A pending word starts as many bytes before its end as it has. -/
theorem flushBytes_eq (front pending cs : List Char) :
    flushBytes pending (byteLength (front ++ pending)) =
      (flush pending (front ++ pending).length).map (inBytes (front ++ pending ++ cs)) := by
  unfold flushBytes flush
  by_cases hnil : pending.isEmpty = true
  · rw [if_pos hnil, if_pos hnil]
    rfl
  · rw [if_neg hnil, if_neg hnil, byteLength_append, Nat.add_sub_cancel, List.length_append,
      Nat.add_sub_cancel, List.map_singleton, inBytes, List.append_assoc, List.take_left]

/-- Reading counts the bytes of what was read. -/
theorem readBytesFrom_eq (cs : List Char) : ∀ front pending : List Char,
    readBytesFrom (byteLength (front ++ pending)) pending cs =
      (readFrom (front ++ pending).length pending cs).map (inBytes (front ++ pending ++ cs)) := by
  induction cs with
  | nil => exact fun front pending => flushBytes_eq front pending []
  | cons c rest ih =>
    intro front pending
    have hflush := flushBytes_eq front pending (c :: rest)
    -- behind the character the whole text is the same
    have hbehind := ih (front ++ pending ++ [c]) []
    rw [List.append_nil, List.append_assoc _ [c], List.singleton_append, byteLength_append _ [c],
      List.length_append, List.length_singleton] at hbehind
    have hpending := ih front (pending ++ [c])
    rw [← List.append_assoc, List.append_assoc _ [c], List.singleton_append, byteLength_append _ [c],
      List.length_append, List.length_singleton] at hpending
    have hsize : byteLength [c] = c.utf8Size := by simp [byteLength]
    rw [hsize] at hbehind hpending
    have htake : (front ++ pending ++ c :: rest).take (front ++ pending).length = front ++ pending :=
      List.take_left
    unfold readBytesFrom readFrom
    by_cases ho : isOpening c = true
    · rw [if_pos ho, if_pos ho, hflush, hbehind, List.map_append, List.map_cons, inBytes, htake]
    by_cases hcl : isClosing c = true
    · rw [if_neg ho, if_neg ho, if_pos hcl, if_pos hcl, hflush, hbehind, List.map_append,
        List.map_cons, inBytes, htake]
    by_cases hb : Text.isBlank c = true
    · rw [if_neg ho, if_neg ho, if_neg hcl, if_neg hcl, if_pos hb, if_pos hb, hflush, hbehind,
        List.map_append]
    · rw [if_neg ho, if_neg ho, if_neg hcl, if_neg hcl, if_neg hb, if_neg hb, hpending]

/-- Counted in bytes the tokens are the same, and every place is the number of bytes before it. -/
theorem readAllBytes_eq (m : Masked) : readAllBytes m = (readAll m).map (inBytes m.chars) :=
  readBytesFrom_eq m.chars [] []

/-- What tokens span can be cut out by places in bytes, too. -/
theorem Spans.sliceBytes?_eq (h : Spans front span rest first last) :
    sliceBytes? (front ++ (span ++ rest)) (first.inBytes (front ++ (span ++ rest))).start
      (last.inBytes (front ++ (span ++ rest))).stopBytes = some span := by
  obtain ⟨-, more, hmore, -⟩ := h.ends
  have hlast : last.start = (front ++ more).length := by
    have hstop := h.stop
    rw [stop_eq, hmore, List.length_append] at hstop
    rw [List.length_append]
    omega
  have htake : (front ++ (span ++ rest)).take last.start = front ++ more := by
    rw [hlast, hmore, List.append_assoc, ← List.append_assoc, List.take_left]
  have hstop : (last.inBytes (front ++ (span ++ rest))).stopBytes = byteLength (front ++ span) := by
    rw [stopBytes, start_inBytes, chars_inBytes, htake, ← byteLength_append, List.append_assoc, ← hmore]
  rw [hstop, start_inBytes, h.start, List.take_left, sliceBytes?_append]

/-- And by places in characters. -/
theorem Spans.take_drop_eq (h : Spans front span rest first last) :
    ((front ++ (span ++ rest)).drop first.start).take (last.stop - first.start) = span := by
  rw [h.stop, h.start, Nat.add_sub_cancel_left, List.drop_left, List.take_left]

end Scim.Token
