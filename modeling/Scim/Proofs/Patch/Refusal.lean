import Scim.Proofs.Filter.Recording
import Scim.Proofs.Patch.Request

/-!
  # What is said of a refused filter or path

  Whatever is refused is refused for a reason.  On the way, a filter is given just where no mistake
  was noted, and a chain notes the mistakes of all of its parts (`FilterContext.Accounted`).  In the
  end there is an error, and each error lies at the root and halts (`Issues.Refuses`); those of a
  path quote it as a whole.
-/

namespace Scim

/-! ## In the end -/

/-- A text that is no filter is refused. -/
theorem Filter.refuses_of_parse_error {catalog : Catalog} {operators : Operators} {input : String}
    {issues : Issues} (h : Filter.parse catalog operators input = .error issues) :
    issues.Refuses fun _ => True := by
  have hexplained := Filter.explained_read catalog operators input.toList
  unfold Filter.parse at h
  cases hread : Filter.read catalog operators input.toList with
  | ok f => simp [hread, Except.mapError] at h
  | error es =>
    rw [hread] at h hexplained
    -- the issues are the mistakes that were noted, of which there is one at least
    obtain rfl := Except.error.inj h
    exact Issues.refuses_ofErrors hexplained.ne_nil fun _ _ => trivial

/-! ## On the way -/

/-- Whatever the tokens are parsed as, each mistake in them is noted, and nothing is noted without
    one. -/
structure FilterContext.Accounted (ctx : FilterContext) (scope : Option Reference)
    (tokens : List Token) : Prop where
  /-- What is parsed is what is read, with levels enough. -/
  disjunction_eq : ∀ levels, tokens.length ≤ levels → ctx.recordDisjunction scope tokens =
    .ofReading (ctx.readFilterWith (ctx.readTerm levels scope) tokens)
  conjunction_eq : ∀ levels, tokens.length ≤ levels → ctx.recordConjunction scope tokens =
    .ofReading (ctx.readChain "and" .and (ctx.readTerm levels scope) tokens)
  term_eq : ∀ levels, tokens.length ≤ levels →
    ctx.recordTerm scope tokens = .ofReading (ctx.readTerm levels scope tokens)
  disjunction : (ctx.recordDisjunction scope tokens).Explains
  conjunction : (ctx.recordConjunction scope tokens).Explains
  term : (ctx.recordTerm scope tokens).Explains
  /-- A chain of `or` notes what its parts note on their own. -/
  orChain : ∀ noted, ∃ es, (ctx.recordDisjunction scope tokens noted).2 = noted ++ es ∧
    ChainMistakes (.missingOperand "or" (ctx.quote tokens))
      (fun part => (ctx.recordConjunction scope part []).2) (Token.pieces "or" tokens) es
  /-- A chain of `and` notes what its parts note on their own. -/
  andChain : ∀ noted, ∃ es, (ctx.recordConjunction scope tokens noted).2 = noted ++ es ∧
    ChainMistakes (.missingOperand "and" (ctx.quote tokens))
      (fun part => (ctx.recordTerm scope part []).2) (Token.pieces "and" tokens) es

/-- All mistakes are accounted for, in every filter and every part of one. -/
theorem FilterContext.accounted (ctx : FilterContext) (scope : Option Reference)
    (tokens : List Token) : ctx.Accounted scope tokens where
  disjunction_eq _ h := recordDisjunction_readTerm h
  conjunction_eq _ h := recordConjunction_readTerm h
  term_eq _ h := recordTerm_eq h
  disjunction := ctx.explains_recordDisjunction scope tokens
  conjunction := ctx.explains_recordConjunction scope tokens
  term := ctx.explains_recordTerm scope tokens
  orChain := ctx.chainMistakes_recordDisjunction scope tokens
  andChain := ctx.chainMistakes_recordConjunction scope tokens

/-- No mistake in a filter or path is passed over in silence: something is given or else a mistake is
    noted, whatever the tokens and wherever they stand, so a parse never falls back on an error of
    its own; and what is refused is refused with errors. -/
theorem mistakes_accounted (catalog : Catalog) (operators : Operators) :
    (∀ masked : Masked, let ctx : FilterContext := ⟨masked, catalog, operators⟩
      (∀ scope tokens, ctx.Accounted scope tokens) ∧
      ∀ tokens fallback, FilterContext.conclude fallback (ctx.recordDisjunction none tokens []) =
        ctx.readFilter tokens) ∧
    (∀ input issues, Filter.parse catalog operators input = .error issues →
      issues.Refuses fun _ => True) ∧
    ∀ input issues, PatchPath.parse catalog operators input = .error issues →
      issues.Refuses fun e => ∃ mistake : Error, e = .badPath input mistake.message :=
  ⟨fun _ => ⟨FilterContext.accounted _, fun tokens fallback =>
      FilterContext.conclude_recordDisjunction _ fallback tokens⟩,
    fun _ _ => Filter.refuses_of_parse_error, fun _ _ => PatchPath.refuses_of_parse_error⟩

/-- A filter with a mistake in each of its three terms, and a path with two mistakes. -/
theorem mistakes_accounted_terms :
    (Filter.read .empty .standard "userName xx \"a\" and title co 1 or 9x pr".toList).errors =
        [.unknownOperator "binary" "xx" "userName xx \"a\"", .incompatibleOperand "co" "integer",
          .badAttributeName "9x"] ∧
      (∃ issues, Filter.parse .empty .standard "userName xx \"a\" and title co 1 or 9x pr" =
        .error issues ∧ issues.Refuses fun _ => True) ∧
      ∃ issues, PatchPath.parse .empty .standard "emails[type eq and 9x pr]" = .error issues ∧
        issues.Refuses fun e =>
          ∃ mistake : Error, e = .badPath "emails[type eq and 9x pr]" mistake.message := by
  obtain ⟨-, hfilter, hpath⟩ := mistakes_accounted .empty .standard
  refine ⟨by decide +kernel, ?_, ?_⟩
  · -- that it is refused is computed, and what the refusal says is not
    have hrefused : (Filter.parse .empty .standard
        "userName xx \"a\" and title co 1 or 9x pr").isOk = false := by
      decide +kernel
    cases hparse : Filter.parse .empty .standard "userName xx \"a\" and title co 1 or 9x pr" with
    | ok f => simp [hparse, Except.isOk, Except.toBool] at hrefused
    | error issues => exact ⟨issues, rfl, hfilter _ issues hparse⟩
  · have hrefused :
        (PatchPath.parse .empty .standard "emails[type eq and 9x pr]").isOk = false := by
      decide +kernel
    cases hparse : PatchPath.parse .empty .standard "emails[type eq and 9x pr]" with
    | ok p => simp [hparse, Except.isOk, Except.toBool] at hrefused
    | error issues => exact ⟨issues, rfl, hpath _ issues hparse⟩

end Scim
