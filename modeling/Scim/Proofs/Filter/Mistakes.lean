import Scim.Filter.Parser

/-!
  # Whoever can not be read is told why

  A reading that fails names at least one mistake (`Reading.Explained`), so nothing that was refused
  passes for good where only the mistakes are counted.  Each reader explains itself if those do that
  it is put together from; the one place where a mistake is kept back is a chain with several empty
  parts, of which the first alone is reported (`explained_readParts`).
-/

namespace Scim

namespace Reading

variable {α β γ : Type}

/-- A reading that fails names a mistake. -/
def Explained (r : Reading α) : Prop := r ≠ .error []

/-- A reading that succeeds has nothing to explain. -/
theorem explained_ok (x : α) : Explained (.ok x : Reading α) := nofun

/-- One mistake is enough. -/
theorem explained_fail (e : Error) : (fail e : Reading α).Explained := nofun

/-- It does not matter what would have been read. -/
theorem Explained.of_error {es : List Error} (h : Explained (.error es : Reading α)) :
    Explained (.error es : Reading β) := by
  intro hes
  obtain rfl := Except.error.inj hes
  exact h rfl

/-- There is a mistake in the list. -/
theorem Explained.ne_nil {es : List Error} (h : Explained (.error es : Reading α)) : es ≠ [] :=
  fun hes => h (by rw [hes])

/-- What fails with one error names it. -/
theorem explained_mapError (x : Except Error α) : Explained (x.mapError ([·])) := by
  cases x <;> exact nofun

/-- What is made of the result does not matter. -/
theorem Explained.map {r : Reading α} (h : r.Explained) (f : α → β) :
    Explained (r.map f) := by
  cases r with
  | error es => exact h.of_error
  | ok x => exact explained_ok (f x)

/-- A reading after another one is explained if both are. -/
theorem Explained.bind {r : Reading α} (h : r.Explained) {f : α → Reading β}
    (hf : ∀ x, (f x).Explained) : Explained (r >>= f) := by
  cases r with
  | error es => exact h.of_error
  | ok x => exact hf x

/-- Of two readings put together, one names a mistake. -/
theorem Explained.both {join : α → β → γ} {a : Reading α} {b : Reading β} (ha : a.Explained)
    (hb : b.Explained) : Explained (Reading.both join a b) := by
  cases a with
  | ok x =>
    cases b with
    | ok y => exact explained_ok (join x y)
    | error es => exact hb.of_error
  | error es =>
    intro h
    have hboth : es ++ b.errors = [] := Except.error.inj h
    exact ha.ne_nil (List.append_eq_nil_iff.mp hboth).1

/-- Two readings put together have the mistakes of both. -/
theorem errors_both {join : α → β → γ} (a : Reading α) (b : Reading β) :
    (both join a b).errors = a.errors ++ b.errors := by
  cases a <;> cases b <;> simp [both, errors]

end Reading

open Reading (Explained explained_fail explained_ok explained_mapError)

namespace FilterContext

variable (ctx : FilterContext)

/-- A word that names no attribute is reported, and so is a path where a name should be. -/
theorem explained_readAttr (word : List Char) (tokens : List Token) (scope : Option Reference) :
    (ctx.readAttr word tokens scope).Explained := by
  unfold readAttr
  split
  · exact explained_fail _
  · split
    · exact explained_ok _
    · split
      · exact explained_fail _
      · exact explained_ok _

/-- A word that is no unary operator is reported: it is a binary one without operand, or unknown. -/
theorem explained_readUnary (word : List Char) (tokens : List Token) :
    (ctx.readUnary word tokens).Explained := by
  dsimp only [readUnary]
  split
  · exact explained_ok _
  · split <;> exact explained_fail _

/-- A word that is no operand is reported. -/
theorem explained_readLiteral (word : List Char) : (ctx.readLiteral word).Explained := by
  dsimp only [readLiteral]
  split
  · exact explained_ok _
  · exact explained_fail _

/-- A comparison is explained by its operator, its operand, or that the two do not fit. -/
theorem explained_readBinary (word operand : List Char) (tokens : List Token) :
    (ctx.readBinary word operand tokens).Explained := by
  have hliteral := ctx.explained_readLiteral operand
  dsimp only [readBinary]
  split
  · -- no such operator: the word may be a unary one, with an operand too many
    split <;> exact explained_fail _
  · split
    · rename_i hes
      rw [hes] at hliteral
      exact hliteral.of_error
    · split
      · exact explained_ok _
      · exact explained_fail _

/-- A chain names a mistake: where an empty part is left out, one was reported before. -/
theorem explained_readParts {readPart : List Token → Reading Filter}
    (hpart : ∀ part, (readPart part).Explained) (missing : Error) (parts : List (List Token)) :
    (readParts readPart missing false parts).Explained := by
  induction parts with
  | nil => exact explained_ok _
  | cons part rest ih =>
    unfold readParts
    split
    · exact nofun
    · exact (hpart part).both ih

/-- A chain is explained if its parts are, and so is one without any part. -/
theorem explained_readChain {readPart : List Token → Reading Filter}
    (hpart : ∀ part, (readPart part).Explained) (keyword : String)
    (join : Filter → Filter → Filter) (tokens : List Token) :
    (ctx.readChain keyword join readPart tokens).Explained := by
  dsimp only [readChain]
  have hparts := explained_readParts hpart (.missingOperand keyword (ctx.quote tokens))
    ((Token.splitAtKeyword keyword.toList 0 tokens).1 ::
      (Token.splitAtKeyword keyword.toList 0 tokens).2)
  split
  · rename_i hes
    rw [hes] at hparts
    exact hparts.of_error
  · exact explained_ok _
  · exact explained_fail _

/-- Both levels of chains are explained if the terms are. -/
theorem explained_readFilterWith {readTerm : List Token → Reading Filter}
    (hterm : ∀ tokens, (readTerm tokens).Explained) (tokens : List Token) :
    (ctx.readFilterWith readTerm tokens).Explained :=
  ctx.explained_readChain (ctx.explained_readChain hterm "and" .and) "or" .or tokens

/-- Square brackets are explained by the path before them, by their place, or by what stands inside.
    -/
theorem explained_readComplex {readInner : Reference → List Token → Reading Filter}
    (hinner : ∀ attr tokens, (readInner attr tokens).Explained) (word : List Char)
    (tokens : List Token) (scope : Option Reference) :
    (ctx.readComplex readInner word tokens scope).Explained := by
  have hattr := ctx.explained_readAttr word tokens none
  dsimp only [readComplex]
  split
  · exact explained_fail _
  · split
    · rename_i hes
      rw [hes] at hattr
      exact hattr.of_error
    · split
      · exact explained_fail _
      · split
        · exact explained_fail _
        · exact (hinner _ _).map _

/-- Terms are explained, by induction on the levels that brackets and negations may go. -/
theorem explained_readTerm (levels : Nat) (scope : Option Reference) (tokens : List Token) :
    (ctx.readTerm levels scope tokens).Explained := by
  induction levels generalizing scope tokens with
  -- the fuel is used up, which is reported like any other mistake
  | zero => exact explained_fail _
  | succ levels ih =>
    have hfilter := fun scope => ctx.explained_readFilterWith (ih scope)
    unfold readTerm
    dsimp only
    split
    · -- in round brackets
      split
      · split
        · exact explained_fail _
        · exact (hfilter scope _).map _
      · exact explained_fail _
    · split
      · split
        · exact explained_fail _
        · exact (ih scope _).map _
      · split
        · -- in square brackets
          split
          · exact ctx.explained_readComplex (fun attr => hfilter (some attr)) _ _ scope
          · exact explained_fail _
        · exact (ctx.explained_readAttr _ _ scope).both (ctx.explained_readUnary _ _)
        · exact (ctx.explained_readAttr _ _ scope).both (ctx.explained_readBinary _ _ _)
        · exact explained_fail _
    · exact explained_fail _

end FilterContext

/-- A text that is no filter has a mistake. -/
theorem Filter.explained_read (catalog : Catalog) (operators : Operators) (input : List Char) :
    (Filter.read catalog operators input).Explained := by
  unfold Filter.read
  dsimp only
  split
  · exact explained_fail _
  · split
    · exact explained_fail _
    · split
      · exact explained_fail _
      · exact FilterContext.explained_readFilterWith _
          (FilterContext.explained_readTerm _ _ none) _

end Scim
