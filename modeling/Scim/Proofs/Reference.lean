import Scim.Proofs.Catalog
import Scim.Proofs.Text.Splitting
import Scim.Reference

/-!
  # What references are read from

  A plain reference is read from its own text and from no other (`parse_eq_ok_plain`).  A qualified
  one is read from the text of its path with a URI before it, in any casing that the catalog finds
  the schema by (`parse_eq_ok_qualified`).  In both cases the text of the reference is read as the
  reference again (`parse_text`).
-/

namespace Scim

/-! ## Names -/

namespace Name

/-- A name consists of characters of names, be it `$ref` or any other. -/
theorem isNameChar_of_mem (n : Name) : ∀ c ∈ n.text.toList, isNameChar c = true := by
  have h := n.valid
  unfold isValid isValidChars at h
  split at h
  · exact absurd h (by decide)
  · rename_i c rest hcs
    rcases Bool.or_eq_true_iff.mp h with h | h
    · rw [beq_iff_eq.mp h]
      exact List.all_eq_true.mp (by decide +kernel)
    · rw [hcs]
      obtain ⟨hc, hrest⟩ := Bool.and_eq_true_iff.mp h
      intro d hd
      rcases List.mem_cons.mp hd with rfl | hd
      · simp [isNameChar, hc]
      · exact List.all_eq_true.mp hrest d hd

/-- No name is empty. -/
theorem toList_ne_nil (n : Name) : n.text.toList ≠ [] := by
  intro h
  have hv := n.valid
  rw [isValid, h] at hv
  exact absurd hv (by decide)

/-- Other characters do not stand in a name. -/
theorem not_mem (n : Name) {c : Char} (hc : isNameChar c = false) : c ∉ n.text.toList := by
  intro hmem
  rw [n.isNameChar_of_mem c hmem] at hc
  exact absurd hc (by decide)

/-- A name is read from its own text and from no other. -/
theorem parse?_eq_some {s : String} {n : Name} : parse? s = some n ↔ n.text = s := by
  unfold parse? parse
  by_cases h : isValid s = true
  · rw [dif_pos h]
    constructor
    · intro hn
      cases hn
      rfl
    · rintro rfl
      rfl
  · rw [dif_neg h]
    constructor
    · intro hn
      exact absurd hn (by simp [Except.toOption])
    · rintro rfl
      exact absurd n.valid h

end Name

/-! ## Paths -/

namespace Path

/-- The text of a path is that of its attribute, with a point and the sub-attribute behind it if
    there is one. -/
theorem toList_text (p : Path) :
    p.text.toList = p.attr.text.toList ++
      (match p.sub with
        | some sub => '.' :: sub.text.toList
        | none => []) := by
  unfold text
  cases p.sub with
  | none => simp
  | some sub =>
    have hpoint : ".".toList = ['.'] := by decide +kernel
    simp [String.toList_append, hpoint]

/-- The characters of a path are those of names, and points. -/
theorem mem_text {p : Path} {c : Char} (h : c ∈ p.text.toList) : Name.isNameChar c = true ∨ c = '.' := by
  rw [toList_text] at h
  rcases List.mem_append.mp h with h | h
  · exact .inl (p.attr.isNameChar_of_mem c h)
  · cases hs : p.sub with
    | none =>
      rw [hs] at h
      exact absurd h (by simp)
    | some sub =>
      rw [hs] at h
      rcases List.mem_cons.mp h with rfl | h
      · exact .inr rfl
      · exact .inl (sub.isNameChar_of_mem c h)

theorem same_self (p : Path) : p.same p = true := by
  rcases p with ⟨attr, _ | sub⟩ <;> simp [same, sameSub, Name.same]

/-- Paths are the same up to case just if their keys are equal. -/
theorem same_iff {p q : Path} : p.same q = true ↔ p.keys = q.keys := by
  obtain ⟨attr, _ | sub⟩ := p <;> obtain ⟨attr', _ | sub'⟩ := q <;>
    simp [same, sameSub, keys, Name.same]

theorem toList_text_ne_nil (p : Path) : p.text.toList ≠ [] := by
  rw [toList_text]
  simp [p.attr.toList_ne_nil]

/-- A path has no colons. -/
theorem colon_not_mem_text (p : Path) : ':' ∉ p.text.toList := by
  intro h
  rcases mem_text h with h | h
  · exact absurd h (by decide)
  · exact absurd h (by decide)

/-- A path is read from its own text and from no other. -/
theorem parseChars?_eq_some {cs : List Char} {p : Path} :
    parseChars? cs = some p ↔ p.text.toList = cs := by
  constructor
  · intro h
    -- one piece, two pieces, or too many
    unfold parseChars? at h
    split at h
    · rename_i attr hsplit
      obtain ⟨n, hn, rfl⟩ := Option.map_eq_some_iff.mp h
      rw [toList_text, Name.parse?_eq_some.mp hn, String.toList_ofList]
      rcases Text.eq_of_splitAt hsplit with ⟨rfl, -⟩ | ⟨rest, -, hrest⟩
      · simp
      · exact absurd hrest (Text.splitAt_ne_nil '.' rest)
    · rename_i attr sub hsplit
      simp only [Option.pure_def, Option.bind_eq_bind, Option.bind_eq_some_iff] at h
      obtain ⟨n, hn, k, hk, hp⟩ := h
      cases hp
      rw [toList_text, Name.parse?_eq_some.mp hn]
      dsimp only
      rw [Name.parse?_eq_some.mp hk, String.toList_ofList, String.toList_ofList]
      rcases Text.eq_of_splitAt hsplit with ⟨-, h⟩ | ⟨rest, rfl, hrest⟩
      · exact absurd h (by simp)
      · rcases Text.eq_of_splitAt hrest with ⟨rfl, -⟩ | ⟨rest', -, hrest'⟩
        · rfl
        · exact absurd hrest' (Text.splitAt_ne_nil '.' rest')
    · exact absurd h (by simp)
  · rintro rfl
    -- names have no points, so the text is cut where the path has its own
    have hpoint : ∀ n : Name, '.' ∉ n.text.toList := fun n => n.not_mem (by decide)
    obtain ⟨attr, sub⟩ := p
    rw [toList_text, parseChars?]
    cases sub with
    | none =>
      rw [List.append_nil, Text.splitAt_of_not_mem (hpoint attr)]
      simp [Name.parse?_eq_some.mpr rfl]
    | some sub =>
      dsimp only
      rw [Text.splitAt_append (hpoint attr), Text.splitAt_of_not_mem (hpoint sub)]
      simp [Name.parse?_eq_some.mpr rfl]

end Path

/-! ## Qualified paths -/

namespace Qualified

theorem same_self (q : Qualified) : q.same q = true := by
  simp [same, SchemaUri.same, q.path.same_self]

/-- Qualified paths are the same up to case just if their URIs and paths are. -/
theorem same_iff {p q : Qualified} :
    p.same q = true ↔ p.schema.key = q.schema.key ∧ p.path.keys = q.path.keys := by
  rw [same, Bool.and_eq_true, Path.same_iff, SchemaUri.same, beq_iff_eq]

/-- A text without a colon is not split. -/
theorem splitLast?_of_not_mem {cs : List Char} (h : ':' ∉ cs) : splitLast? cs = none := by
  induction cs with
  | nil => rfl
  | cons c rest ih =>
    simp only [List.mem_cons, not_or] at h
    rw [splitLast?, ih h.2]
    exact if_neg (Ne.symm h.1)

/-- A text is split at a colon that none follows. -/
theorem splitLast?_append (before : List Char) {after : List Char} (h : ':' ∉ after) :
    splitLast? (before ++ ':' :: after) = some (before, after) := by
  induction before with
  | nil => rw [List.nil_append, splitLast?, splitLast?_of_not_mem h]; rfl
  | cons c before ih => rw [List.cons_append, splitLast?, ih]

/-- A text is split at its last colon. -/
theorem eq_of_splitLast? {cs before after : List Char} (h : splitLast? cs = some (before, after)) :
    cs = before ++ ':' :: after := by
  induction cs generalizing before with
  | nil => exact absurd h (by simp [splitLast?])
  | cons c rest ih =>
    rw [splitLast?] at h
    split at h
    · rename_i b a hrest
      cases h
      rw [ih hrest]
      rfl
    · split at h
      · rename_i hc
        cases h
        rw [hc]
        rfl
      · exact absurd h (by simp)

/-- A qualified path is read from the text of the path with a URI before it, up to case. -/
theorem parse_eq_ok {catalog : Catalog} {s : String} {q : Qualified} :
    parse catalog s = .ok q ↔
      ∃ uri, s.toList = uri ++ ':' :: q.path.text.toList ∧
        catalog.lookup (String.ofList uri) = some q.schema := by
  unfold parse
  constructor
  · intro h
    split at h
    · exact absurd h (by simp)
    rename_i uri path hsplit
    -- the schema is looked for before the path is read
    cases hlookup : catalog.lookup (String.ofList uri) with
    | none =>
      rw [Catalog.resolve, hlookup] at h
      exact absurd h (by simp [bind, Except.bind])
    | some schema =>
      rw [Catalog.resolve, hlookup] at h
      cases hpath : Path.parseChars? path with
      | none =>
        rw [hpath] at h
        exact absurd h (by simp [bind, Except.bind, Path.orBadName])
      | some p =>
        rw [hpath] at h
        obtain rfl : (⟨schema, p⟩ : Qualified) = q := by
          simpa [bind, Except.bind, Path.orBadName, pure, Except.pure] using h
        refine ⟨uri, ?_, hlookup⟩
        rw [Path.parseChars?_eq_some.mp hpath]
        exact eq_of_splitLast? hsplit
  · rintro ⟨uri, hs, hlookup⟩
    rw [hs, splitLast?_append uri q.path.colon_not_mem_text]
    dsimp only
    rw [Catalog.resolve, hlookup, Path.parseChars?_eq_some.mpr rfl]
    rfl

end Qualified

/-! ## References -/

namespace Reference

variable {catalog : Catalog} {s : String}

/-- A plain reference is read from its own text and from no other. -/
theorem parse_eq_ok_plain {p : Path} : parse catalog s = .ok (.plain p) ↔ p.text = s := by
  unfold parse
  -- a colon makes the difference between the two kinds
  by_cases hcolon : ':' ∈ s.toList
  · rw [if_pos (by simpa using hcolon)]
    constructor
    · intro h
      cases hq : Qualified.parse catalog s <;> simp [hq, Except.map] at h
    · rintro rfl
      exact absurd hcolon p.colon_not_mem_text
  · rw [if_neg (by simpa using hcolon), Path.parse]
    constructor
    · intro h
      cases hp : Path.parseChars? s.toList with
      | none =>
        rw [hp] at h
        exact absurd h (by simp [Path.orBadName, Except.map])
      | some path =>
        rw [hp] at h
        obtain rfl : path = p := by simpa [Path.orBadName, Except.map] using h
        exact String.toList_inj.mp (Path.parseChars?_eq_some.mp hp)
    · rintro rfl
      rw [Path.parseChars?_eq_some.mpr rfl]
      rfl

/-- A qualified reference is read from the text of its path with a URI before it, up to case. -/
theorem parse_eq_ok_qualified {q : Qualified} :
    parse catalog s = .ok (.qualified q) ↔
      ∃ uri, s.toList = uri ++ ':' :: q.path.text.toList ∧
        catalog.lookup (String.ofList uri) = some q.schema := by
  rw [← Qualified.parse_eq_ok, parse]
  by_cases hcolon : ':' ∈ s.toList
  · rw [if_pos (by simpa using hcolon)]
    cases Qualified.parse catalog s <;> simp [Except.map]
  · rw [if_neg (by simpa using hcolon)]
    constructor
    · intro h
      cases hp : Path.parse s <;> simp [hp, Except.map] at h
    · intro h
      obtain ⟨uri, hs, -⟩ := Qualified.parse_eq_ok.mp h
      exact absurd (by simp [hs]) hcolon

/-- The text of a qualified reference has the URI, a colon and the path. -/
theorem toList_text_qualified (q : Qualified) :
    (Reference.qualified q).text.toList = q.schema.text.toList ++ ':' :: q.path.text.toList := by
  have hcolon : ":".toList = [':'] := by decide +kernel
  simp [text, Qualified.text, String.toList_append, hcolon]

/-- The text of a reference is read as the reference. -/
theorem parse_text {r : Reference} (h : parse catalog s = .ok r) : parse catalog r.text = .ok r := by
  cases r with
  | plain p => exact parse_eq_ok_plain.mpr rfl
  | qualified q =>
    obtain ⟨uri, -, hlookup⟩ := parse_eq_ok_qualified.mp h
    refine parse_eq_ok_qualified.mpr ⟨q.schema.text.toList, toList_text_qualified q, ?_⟩
    rw [String.ofList_toList]
    exact (Catalog.lookup_text hlookup).2

/-- A reference is the same as itself. -/
theorem same_self (r : Reference) : r.same r = true := by
  cases r with
  | plain p => exact p.same_self
  | qualified q => exact q.same_self

/-- The text of a reference is not empty. -/
theorem toList_text_ne_nil (r : Reference) : r.text.toList ≠ [] := by
  cases r with
  | plain p => exact p.toList_text_ne_nil
  | qualified q =>
    rw [toList_text_qualified]
    simp

end Reference

end Scim
