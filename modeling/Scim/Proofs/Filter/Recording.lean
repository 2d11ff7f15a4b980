import Scim.Proofs.Filter.Mistakes
import Scim.Proofs.Filter.Reading

/-!
  # Noting mistakes on the way

  A parser may also keep one list of mistakes, add to it wherever something is wrong, and give a
  filter or none (`Recorder`).  Then nothing forbids that it gives none and notes nothing, or notes
  a mistake and goes on; a chain joins its parts as it meets them, and remembers on the side that one
  of them has failed (`ChainState`).

  Here filters are parsed that way, without any bound on the depth.  The parser turns out to be the
  reading of filters (`recordTerm_eq`): it gives what is read, and notes what is wrong with it, after
  what was noted before (`Recorder.ofReading`).

    * The combinators of recorders are those of readings (`map_ofReading`, `both_ofReading`,
      `chain_ofReading`).
    * The levels of `readTerm` are no matter: the recorder is the reading with any number of levels
      from the number of tokens on, so all of these readings agree.
    * So something is given just where nothing is noted (`Recorder.Explains`), and a chain notes the
      mistakes of all its parts (`ChainMistakes`).
-/

namespace Scim

namespace Token

/-- The pieces between the keywords outside all brackets. -/
def pieces (keyword : String) (tokens : List Token) : List (List Token) :=
  (splitAtKeyword keyword.toList 0 tokens).1 :: (splitAtKeyword keyword.toList 0 tokens).2

/-- A piece has no more tokens than all of them. -/
theorem length_le_of_mem_splitAtKeyword {keyword : List Char} (tokens : List Token) :
    ∀ depth, ∀ piece ∈ (splitAtKeyword keyword depth tokens).1 ::
      (splitAtKeyword keyword depth tokens).2, piece.length ≤ tokens.length := by
  induction tokens with
  | nil => simp [splitAtKeyword]
  | cons t rest ih =>
    intro depth
    have hrest := fun depth piece hpiece => Nat.le_succ_of_le (ih depth piece hpiece)
    unfold splitAtKeyword
    split
    · exact List.forall_mem_cons.mpr ⟨Nat.zero_le _, hrest 0⟩
    · obtain ⟨hfirst, -⟩ := List.forall_mem_cons.mp (ih (depthAfter depth t))
      obtain ⟨-, hmore⟩ := List.forall_mem_cons.mp (hrest (depthAfter depth t))
      exact List.forall_mem_cons.mpr ⟨Nat.succ_le_succ hfirst, hmore⟩

/-- Going over pieces does not go up in the number of tokens. -/
theorem length_le_of_mem_pieces {keyword : String} {tokens piece : List Token}
    (h : piece ∈ pieces keyword tokens) : piece.length ≤ tokens.length :=
  length_le_of_mem_splitAtKeyword tokens 0 piece h

end Token

/-! ## Recorders -/

/-- Given the mistakes noted so far: what was read, if anything was, and the mistakes noted then. -/
abbrev Recorder (α : Type) := List Error → Option α × List Error

namespace Recorder

variable {α β γ : Type}

/-- Notes a mistake and gives nothing. -/
def fail (e : Error) : Recorder α := fun noted => (none, noted ++ [e])

/-- Gives what is read, or notes what is wrong with it. -/
def ofReading (r : Reading α) : Recorder α := fun noted => (r.toOption, noted ++ r.errors)

/-- Changes what is given. -/
def map (f : α → β) (a : Recorder α) : Recorder β := fun noted =>
  let (x, noted) := a noted
  (x.map f, noted)

/-- Goes on if something is given. -/
def bind (a : Recorder α) (f : α → Recorder β) : Recorder β := fun noted =>
  match a noted with
  | (some x, noted) => f x noted
  | (none, noted) => (none, noted)

/-- One after the other, the second also if the first gives nothing. -/
def both (join : α → β → γ) (a : Recorder α) (b : Recorder β) : Recorder γ := fun noted =>
  let (x, noted) := a noted
  let (y, noted) := b noted
  (x.bind fun x => y.map (join x), noted)

/-! ## Chains -/

/-- How far a chain has come. -/
structure ChainState where
  joined : Option Filter
  failed : Bool
  reported : Bool
  noted : List Error

/-- Joins a filter to those joined before, if there are any. -/
def joinTo (join : Filter → Filter → Filter) (joined : Option Filter) (filter : Filter) :
    Option Filter :=
  match joined with
  | some left => some (join left filter)
  | none => some filter

/-- Takes the next part.  Of the empty parts only the first is noted. -/
def ChainState.next (c : ChainState) (missing : Error) (join : Filter → Filter → Filter)
    (part : List Token) (record : Recorder Filter) : ChainState :=
  if part.isEmpty then
    { c with
      failed := true
      reported := true
      noted := if c.reported then c.noted else c.noted ++ [missing] }
  else
    match record c.noted with
    | (some filter, noted) => { c with joined := joinTo join c.joined filter, noted }
    | (none, noted) => { c with failed := true, noted }

/-- Takes parts one after the other, each with its own recorder. -/
def chain (missing : Error) (join : Filter → Filter → Filter) (parts : List (List Token))
    (record : ∀ part ∈ parts, Recorder Filter) : Recorder Filter := fun noted =>
  let start : ChainState := ⟨none, false, false, noted⟩
  let last := parts.attach.foldl
    (fun c part => c.next missing join part.1 (record part.1 part.2)) start
  (if last.failed then none else last.joined, last.noted)

/-! ## Recorders of readings -/

theorem map_ofReading (f : α → β) (r : Reading α) : map f (ofReading r) = ofReading (r.map f) := by
  cases r <;> rfl

/-- What was read is gone on with, and nothing was noted. -/
theorem bind_ofReading_ok (x : α) (f : α → Recorder β) : bind (ofReading (.ok x)) f = f x := by
  funext noted
  show f x (noted ++ []) = f x noted
  rw [List.append_nil]

/-- Mistakes end the matter. -/
theorem bind_ofReading_error (es : List Error) (f : α → Recorder β) :
    bind (ofReading (.error es)) f = ofReading (.error es) := rfl

/-- One after the other is both together. -/
theorem both_ofReading (join : α → β → γ) (a : Reading α) (b : Reading β) :
    both join (ofReading a) (ofReading b) = ofReading (.both join a b) := by
  funext noted
  cases a <;> cases b <;> simp [both, ofReading, Reading.both, Reading.errors, Except.toOption]

open FilterContext (readParts)

namespace ChainState

/-- A chain has come from one state to another over parts with a reading.  Their filters are joined
    to those before; or it has failed, and what is wrong is noted after what was noted before. -/
def Reads (join : Filter → Filter → Filter) (c last : ChainState) : Reading (List Filter) → Prop
  | .ok filters => last = { c with joined := filters.foldl (joinTo join) c.joined }
  | .error es => last.failed = true ∧ last.noted = c.noted ++ es

variable {join : Filter → Filter → Filter} {c last : ChainState}

/-- A chain that has failed goes on noting mistakes. -/
theorem Reads.of_failed {r : Reading (List Filter)} (h : Reads join c last r)
    (hfailed : c.failed = true) : last.failed = true ∧ last.noted = c.noted ++ r.errors := by
  cases r with
  | ok filters =>
    obtain rfl := h
    exact ⟨hfailed, (List.append_nil _).symm⟩
  | error es => exact h

/-- A part that is read is joined to those before. -/
theorem next_ofReading_ok {part : List Token} (hpart : part.isEmpty = false) (c : ChainState)
    (missing : Error) (filter : Filter) :
    c.next missing join part (ofReading (.ok filter)) =
      { c with joined := joinTo join c.joined filter } := by
  simp [next, hpart, ofReading, Reading.errors, Except.toOption]

/-- A part that is not read makes the chain fail, and its mistakes are noted. -/
theorem next_ofReading_error {part : List Token} (hpart : part.isEmpty = false) (c : ChainState)
    (missing : Error) (es : List Error) :
    c.next missing join part (ofReading (.error es)) =
      { c with failed := true, noted := c.noted ++ es } := by
  simp [next, hpart, ofReading, Reading.errors, Except.toOption]

/-- The parts of a chain are taken as they are read. -/
theorem reads_foldl (join : Filter → Filter → Filter) (missing : Error)
    (readPart : List Token → Reading Filter) (parts : List (List Token)) (c : ChainState) :
    c.Reads join
      (parts.foldl (fun (c : ChainState) part =>
        c.next missing join part (ofReading (readPart part))) c)
      (readParts readPart missing c.reported parts) := by
  induction parts generalizing c with
  | nil => rfl
  | cons part rest ih =>
    rw [List.foldl_cons, readParts]
    cases hpart : part.isEmpty with
    -- an empty part: the chain has failed, and from here on no empty part is noted
    | true =>
      have hnext : c.next missing join part (ofReading (readPart part)) =
          ⟨c.joined, true, true, if c.reported then c.noted else c.noted ++ [missing]⟩ :=
        if_pos hpart
      rw [hnext, if_pos rfl]
      obtain ⟨hfailed, hnoted⟩ := (ih ⟨c.joined, true, true, _⟩).of_failed rfl
      refine ⟨hfailed, hnoted.trans ?_⟩
      cases c.reported <;> simp
    | false =>
      rw [if_neg Bool.false_ne_true]
      cases readPart part with
      | ok filter =>
        rw [next_ofReading_ok hpart]
        have hrest := ih { c with joined := joinTo join c.joined filter }
        cases hread : readParts readPart missing c.reported rest with
        | ok filters => rwa [hread] at hrest
        | error es => rwa [hread] at hrest
      -- a part that fails: its mistakes stand before those of the rest
      | error es =>
        rw [next_ofReading_error hpart]
        have hrest := ih { c with failed := true, noted := c.noted ++ es }
        obtain ⟨hfailed, hnoted⟩ := hrest.of_failed rfl
        refine ⟨hfailed, hnoted.trans ?_⟩
        rw [List.append_assoc]
        rfl

end ChainState

/-- Behind a first filter the others are joined from the left. -/
theorem foldl_joinTo (join : Filter → Filter → Filter) (filters : List Filter) (left : Filter) :
    filters.foldl (joinTo join) (some left) = some (filters.foldl join left) := by
  induction filters generalizing left with
  | nil => rfl
  | cons filter filters ih => exact ih (join left filter)

/-- A chain whose parts are read is read. -/
theorem chain_ofReading (ctx : FilterContext) (keyword : String) (join : Filter → Filter → Filter)
    (readPart : List Token → Reading Filter) (tokens : List Token) :
    chain (.missingOperand keyword (ctx.quote tokens)) join (Token.pieces keyword tokens)
        (fun part _ => ofReading (readPart part)) =
      ofReading (ctx.readChain keyword join readPart tokens) := by
  funext noted
  have hreads := ChainState.reads_foldl join (.missingOperand keyword (ctx.quote tokens)) readPart
    (Token.pieces keyword tokens) ⟨none, false, false, noted⟩
  dsimp only [chain, FilterContext.readChain]
  rw [List.foldl_attach (f := fun (c : ChainState) part =>
    c.next _ join part (ofReading (readPart part)))]
  unfold Token.pieces at hreads ⊢
  revert hreads
  generalize List.foldl _ _ _ = last
  cases hread : readParts readPart (.missingOperand keyword (ctx.quote tokens)) false
      ((Token.splitAtKeyword keyword.toList 0 tokens).1 ::
        (Token.splitAtKeyword keyword.toList 0 tokens).2) with
  | error es =>
    rintro ⟨hfailed, hnoted⟩
    rw [if_pos hfailed, hnoted]
    rfl
  | ok _ =>
    rintro rfl
    -- there is always a part, so there is a filter
    cases FilterContext.readParts_eq_ok.mp hread with
    | @cons _ filter _ filters _ _ =>
      simp only [List.foldl_cons, joinTo, foldl_joinTo]
      simp [ofReading, Except.toOption, Reading.errors]

end Recorder

/-! ## Filters -/

namespace FilterContext

open Recorder (ofReading)

variable (ctx : FilterContext)

/-- What stands between brackets has fewer tokens than all of it. -/
theorem length_between_le (t : Token) (rest : List Token) (index : Nat) :
    (between (t :: rest) index).length ≤ rest.length := by
  simp only [between, List.length_dropLast, List.length_drop, List.length_cons]
  omega

/-- Goes over a filter on the elements of an attribute. -/
def recordComplex (recordInner : Reference → Recorder Filter) (word : List Char)
    (tokens : List Token) (scope : Option Reference) : Recorder Filter :=
  match scope with
  | some parent => .fail (.complexSubAttribute parent.text (ctx.quote tokens))
  | none => (ofReading (ctx.readAttr word tokens none)).bind fun attr =>
      if attr.isSub then .fail (.complexSubAttribute attr.text (ctx.quote tokens))
      else if (between tokens 1).isEmpty then .fail .emptyExpression
      else (recordInner attr).map (.complex attr)

mutual

/-- Goes over the parts between `or`. -/
def recordDisjunction (scope : Option Reference) (tokens : List Token) : Recorder Filter :=
  .chain (.missingOperand "or" (ctx.quote tokens)) .or (Token.pieces "or" tokens) fun part hpart =>
    have : part.length ≤ tokens.length := Token.length_le_of_mem_pieces hpart
    recordConjunction scope part
termination_by 3 * tokens.length + 2

/-- Goes over the parts between `and`. -/
def recordConjunction (scope : Option Reference) (tokens : List Token) : Recorder Filter :=
  .chain (.missingOperand "and" (ctx.quote tokens)) .and (Token.pieces "and" tokens) fun part hpart =>
    have : part.length ≤ tokens.length := Token.length_le_of_mem_pieces hpart
    recordTerm scope part
termination_by 3 * tokens.length + 1

/-- Goes over a term. -/
def recordTerm (scope : Option Reference) (tokens : List Token) : Recorder Filter :=
  match tokens with
  | .word word start :: rest =>
    let tokens := .word word start :: rest
    if Token.isKeyword ['n', 'o', 't'] (.word word start) then
      if rest.isEmpty then .fail (.missingOperand "not" (ctx.quote tokens))
      else (recordTerm scope rest).map .not
    else
      let recordInner := fun attr =>
        have := length_between_le (.word word start) rest 1
        recordDisjunction (some attr) (between tokens 1)
      match rest with
      | [.word operator _] =>
        .both leaf (ofReading (ctx.readAttr word tokens scope))
          (ofReading (ctx.readUnary operator tokens))
      | [.word operator _, .word operand _] =>
        .both leaf (ofReading (ctx.readAttr word tokens scope))
          (ofReading (ctx.readBinary operator operand tokens))
      | .opening '[' _ :: _ =>
        if Token.closedByLast tokens 1 then ctx.recordComplex recordInner word tokens scope
        else .fail (.unknownExpression (ctx.quote tokens))
      | _ => .fail (.unknownExpression (ctx.quote tokens))
  | .opening '(' start :: rest =>
    have := length_between_le (.opening '(' start) rest 0
    let tokens := .opening '(' start :: rest
    if Token.closedByLast tokens 0 then
      if (between tokens 0).isEmpty then .fail .emptyExpression
      else (recordDisjunction scope (between tokens 0)).map .group
    else .fail (.unknownExpression (ctx.quote tokens))
  | _ => .fail (.unknownExpression (ctx.quote tokens))
termination_by 3 * tokens.length

end

variable {ctx : FilterContext} {scope : Option Reference} {tokens : List Token} {levels : Nat}
  {readPart : List Token → Reading Filter}

/-- If terms are recorded as they are read, so are chains of them. -/
theorem recordConjunction_eq
    (h : ∀ part, part.length ≤ tokens.length → ctx.recordTerm scope part = ofReading (readPart part)) :
    ctx.recordConjunction scope tokens = ofReading (ctx.readChain "and" .and readPart tokens) := by
  have hparts : (fun part (_ : part ∈ Token.pieces "and" tokens) => ctx.recordTerm scope part) =
      fun part _ => ofReading (readPart part) := by
    funext part hpart
    exact h part (Token.length_le_of_mem_pieces hpart)
  rw [recordConjunction, hparts, Recorder.chain_ofReading]

/-- And so are chains of such chains. -/
theorem recordDisjunction_eq
    (h : ∀ part, part.length ≤ tokens.length →
      ctx.recordTerm scope part = ofReading (readPart part)) :
    ctx.recordDisjunction scope tokens = ofReading (ctx.readFilterWith readPart tokens) := by
  have hparts : (fun part (_ : part ∈ Token.pieces "or" tokens) => ctx.recordConjunction scope part) =
      fun part _ => ofReading (ctx.readChain "and" .and readPart part) := by
    funext part hpart
    refine recordConjunction_eq fun piece hpiece => h piece ?_
    exact hpiece.trans (Token.length_le_of_mem_pieces hpart)
  rw [recordDisjunction, hparts, Recorder.chain_ofReading, readFilterWith]

/-- Square brackets are recorded as they are read, if their contents are. -/
theorem recordComplex_eq {recordInner : Reference → Recorder Filter}
    {readInner : Reference → List Token → Reading Filter}
    (h : ∀ attr, recordInner attr = ofReading (readInner attr (between tokens 1)))
    (word : List Char) :
    ctx.recordComplex recordInner word tokens scope =
      ofReading (ctx.readComplex readInner word tokens scope) := by
  cases scope with
  | some parent => rfl
  | none =>
    dsimp only [recordComplex, readComplex]
    cases ctx.readAttr word tokens none with
    | error es => exact Recorder.bind_ofReading_error es _
    | ok attr =>
      rw [Recorder.bind_ofReading_ok]
      dsimp only
      split
      · rfl
      · split
        · rfl
        · rw [h, Recorder.map_ofReading]

/-- A term is read, with as many levels as it has tokens or more. -/
theorem recordTerm_eq (h : tokens.length ≤ levels) :
    ctx.recordTerm scope tokens = ofReading (ctx.readTerm levels scope tokens) := by
  induction levels generalizing scope tokens with
  | zero =>
    obtain rfl := List.length_eq_zero_iff.mp (Nat.le_zero.mp h)
    unfold recordTerm
    rfl
  | succ levels ih =>
    -- what stands between brackets has one token less, at least, and so has every part of it
    have hinner : ∀ scope index t rest, tokens = t :: rest →
        ctx.recordDisjunction scope (between (t :: rest) index) =
          ofReading (ctx.readFilterWith (ctx.readTerm levels scope) (between (t :: rest) index)) := by
      intro scope index t rest htokens
      have hlength := length_between_le t rest index
      rw [htokens, List.length_cons] at h
      exact recordDisjunction_eq fun part hpart => ih (by omega)
    unfold recordTerm readTerm
    dsimp only
    split
    · rename_i word start rest
      dsimp only
      split
      · split
        · rfl
        · rw [ih (Nat.le_of_succ_le_succ h)]
          exact Recorder.map_ofReading _ _
      · split
        · exact Recorder.both_ofReading _ _ _
        · exact Recorder.both_ofReading _ _ _
        · -- in square brackets
          split
          · exact recordComplex_eq (fun attr => hinner (some attr) 1 _ _ rfl) word
          · rfl
        · rename_i hunary hbinary hsquare
          split
          · exact absurd rfl (hsquare _ _)
          · exact absurd rfl (hunary _ _)
          · exact absurd rfl (hbinary _ _ _ _)
          · rfl
    · -- in round brackets
      rw [hinner _ _ _ _ rfl]
      split
      · split
        · rfl
        · exact Recorder.map_ofReading _ _
      · rfl
    · rename_i hword hround
      split
      · exact absurd rfl (hround _ _)
      · exact absurd rfl (hword _ _ _)
      · rfl

/-- A filter is read, with as many levels as it has tokens or more. -/
theorem recordDisjunction_readTerm (h : tokens.length ≤ levels) :
    ctx.recordDisjunction scope tokens =
      ofReading (ctx.readFilterWith (ctx.readTerm levels scope) tokens) :=
  recordDisjunction_eq fun _ hpart => recordTerm_eq (hpart.trans h)

/-- A conjunction is read, with as many levels as it has tokens or more. -/
theorem recordConjunction_readTerm (h : tokens.length ≤ levels) :
    ctx.recordConjunction scope tokens =
      ofReading (ctx.readChain "and" .and (ctx.readTerm levels scope) tokens) :=
  recordConjunction_eq fun _ hpart => recordTerm_eq (hpart.trans h)

end FilterContext

/-! ## What is noted -/

namespace Recorder

variable {α : Type}

/-- A recorder adds to what was noted, and gives something just if it adds nothing. -/
def Explains (a : Recorder α) : Prop :=
  ∀ noted, noted <+: (a noted).2 ∧ ((a noted).1.isSome = true ↔ (a noted).2 = noted)

/-- A reading that names its mistakes makes a recorder that does. -/
theorem explains_ofReading {r : Reading α} (h : r.Explained) : (ofReading r).Explains := by
  intro noted
  refine ⟨List.prefix_append noted _, ?_⟩
  cases r with
  | ok x => simp [ofReading, Except.toOption, Reading.errors]
  | error es =>
    simp [ofReading, Except.toOption, Reading.errors, h.ne_nil]

end Recorder

/-- The mistakes of a chain, if `own` are those of a part: they are noted part by part, and of the
    empty parts the first is reported as `missing`. -/
inductive ChainMistakes (missing : Error) (own : List Token → List Error) :
    List (List Token) → List Error → Prop
  | full {parts : List (List Token)} : (∀ part ∈ parts, part ≠ []) →
      ChainMistakes missing own parts (parts.flatMap own)
  | gap {before after : List (List Token)} : (∀ part ∈ before, part ≠ []) →
      ChainMistakes missing own (before ++ [] :: after)
        (before.flatMap own ++ missing :: (after.filter (· ≠ [])).flatMap own)

namespace ChainMistakes

variable {missing : Error} {own : List Token → List Error} {part : List Token}
  {parts : List (List Token)} {es : List Error}

/-- A part that is not empty adds its own mistakes in front. -/
theorem cons (h : ChainMistakes missing own parts es) (hpart : part ≠ []) :
    ChainMistakes missing own (part :: parts) (own part ++ es) := by
  cases h with
  | full hparts => exact .full (List.forall_mem_cons.mpr ⟨hpart, hparts⟩)
  | gap hbefore =>
    rw [← List.append_assoc]
    exact .gap (List.forall_mem_cons.mpr ⟨hpart, hbefore⟩)

open FilterContext (readParts)

variable (missing) (readPart : List Token → Reading Filter)

/-- Once an empty part was reported, the others are passed over. -/
theorem errors_readParts_reported (parts : List (List Token)) :
    (readParts readPart missing true parts).errors =
      (parts.filter (· ≠ [])).flatMap fun part => (readPart part).errors := by
  induction parts with
  | nil => rfl
  | cons part rest ih =>
    cases part with
    | nil => simpa [readParts, Reading.errors] using ih
    | cons t part => simp [readParts, Reading.errors_both, ih]

/-- Reading the parts of a chain finds its mistakes. -/
theorem of_readParts (parts : List (List Token)) :
    ChainMistakes missing (fun part => (readPart part).errors) parts
      (readParts readPart missing false parts).errors := by
  induction parts with
  | nil => exact .full nofun
  | cons part rest ih =>
    cases part with
    | nil =>
      have hmistakes : ChainMistakes missing (fun part => (readPart part).errors) ([] ++ [] :: rest)
          (missing :: (rest.filter (· ≠ [])).flatMap fun part => (readPart part).errors) :=
        gap nofun
      rwa [← errors_readParts_reported missing] at hmistakes
    | cons t part =>
      rw [readParts, if_neg (by simp), Reading.errors_both]
      exact ih.cons (List.cons_ne_nil t part)

end ChainMistakes

namespace FilterContext

open Recorder (ofReading)

variable (ctx : FilterContext)

/-- A chain has the mistakes of its parts and no others. -/
theorem errors_readChain (keyword : String) (join : Filter → Filter → Filter)
    (readPart : List Token → Reading Filter) (tokens : List Token) :
    (ctx.readChain keyword join readPart tokens).errors =
      (readParts readPart (.missingOperand keyword (ctx.quote tokens)) false
        (Token.pieces keyword tokens)).errors := by
  dsimp only [readChain, Token.pieces]
  split
  · rename_i es hread
    rw [hread]
    rfl
  · rename_i hread
    rw [hread]
    rfl
  · rename_i hread
    -- there is always a part
    cases readParts_eq_ok.mp hread

/-- A chain of parts that are read notes the mistakes of a chain. -/
theorem chainMistakes_chain {record : List Token → Recorder Filter}
    {readPart : List Token → Reading Filter} (h : ∀ part, record part = ofReading (readPart part))
    (keyword : String) (join : Filter → Filter → Filter) (tokens : List Token) (noted : List Error) :
    ∃ es, (Recorder.chain (.missingOperand keyword (ctx.quote tokens)) join
        (Token.pieces keyword tokens) (fun part _ => record part) noted).2 = noted ++ es ∧
      ChainMistakes (.missingOperand keyword (ctx.quote tokens)) (fun part => (record part []).2)
        (Token.pieces keyword tokens) es := by
  obtain rfl : record = fun part => ofReading (readPart part) := funext h
  rw [Recorder.chain_ofReading]
  refine ⟨_, rfl, ?_⟩
  rw [errors_readChain]
  exact ChainMistakes.of_readParts _ readPart _

/-- The mistakes between `or`, part by part. -/
theorem chainMistakes_recordDisjunction (scope : Option Reference) (tokens : List Token)
    (noted : List Error) :
    ∃ es, (ctx.recordDisjunction scope tokens noted).2 = noted ++ es ∧
      ChainMistakes (.missingOperand "or" (ctx.quote tokens))
        (fun part => (ctx.recordConjunction scope part []).2) (Token.pieces "or" tokens) es := by
  rw [recordDisjunction]
  exact ctx.chainMistakes_chain (fun _ => recordConjunction_readTerm le_rfl) "or" .or tokens noted

/-- The mistakes between `and`, part by part. -/
theorem chainMistakes_recordConjunction (scope : Option Reference) (tokens : List Token)
    (noted : List Error) :
    ∃ es, (ctx.recordConjunction scope tokens noted).2 = noted ++ es ∧
      ChainMistakes (.missingOperand "and" (ctx.quote tokens))
        (fun part => (ctx.recordTerm scope part []).2) (Token.pieces "and" tokens) es := by
  rw [recordConjunction]
  exact ctx.chainMistakes_chain (fun _ => recordTerm_eq le_rfl) "and" .and tokens noted

/-- Going over a filter gives one, or notes a mistake. -/
theorem explains_recordDisjunction (scope : Option Reference) (tokens : List Token) :
    (ctx.recordDisjunction scope tokens).Explains := by
  rw [recordDisjunction_readTerm le_rfl]
  exact Recorder.explains_ofReading
    (ctx.explained_readFilterWith (ctx.explained_readTerm _ scope) tokens)

theorem explains_recordConjunction (scope : Option Reference) (tokens : List Token) :
    (ctx.recordConjunction scope tokens).Explains := by
  rw [recordConjunction_readTerm le_rfl]
  exact Recorder.explains_ofReading
    (ctx.explained_readChain (ctx.explained_readTerm _ scope) "and" .and tokens)

/-- Going over a term gives a filter, or notes a mistake. -/
theorem explains_recordTerm (scope : Option Reference) (tokens : List Token) :
    (ctx.recordTerm scope tokens).Explains := by
  rw [recordTerm_eq le_rfl]
  exact Recorder.explains_ofReading (ctx.explained_readTerm _ scope tokens)

/-- How a parse ends: with the filter, if no mistake was noted; and with a fallback, if nothing was
    noted and there is no filter. -/
def conclude (fallback : Error) : Option Filter × List Error → Reading Filter
  | (some filter, []) => .ok filter
  | (none, []) => .fail fallback
  | (_, es) => .error es

/-- The fallback is never needed. -/
theorem conclude_recordDisjunction (fallback : Error) (tokens : List Token) :
    conclude fallback (ctx.recordDisjunction none tokens []) = ctx.readFilter tokens := by
  rw [recordDisjunction_readTerm le_rfl, readFilter]
  have hexplained := ctx.explained_readFilterWith (ctx.explained_readTerm tokens.length none) tokens
  cases hread : ctx.readFilterWith (ctx.readTerm tokens.length none) tokens with
  | ok filter => rfl
  | error es =>
    cases es with
    | nil => exact absurd hread hexplained
    | cons e es => rfl

end FilterContext

end Scim
