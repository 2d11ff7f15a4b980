import Scim.Filter.Evaluation
import Scim.Filter.Parser

/-!
  # Paths of modifications

  A path leads to what a modification changes: an attribute, perhaps only those of its elements that
  a filter selects, and perhaps only a sub-attribute of them.

      members
      name.givenName
      emails[type eq "work"].value

  Every mistake in a path is reported as a bad path with the mistake as its detail.

    * `make` puts a path together, `parse` reads one, `text` writes it;
    * `target` is the attribute or sub-attribute that the path leads to;
    * `selects` tells whether an element is selected.
-/

namespace Scim

/-- A filter on the elements of an attribute. -/
structure ElementSelection where
  attr : Reference
  inner : Filter

/-- The selection as a filter. -/
def ElementSelection.filter (s : ElementSelection) : Filter := .complex s.attr s.inner

/-- The way to what a modification changes. -/
structure PatchPath where
  attr : Reference
  selection : Option ElementSelection
  sub : Option Name
  isTop : attr.isSub = false
  onAttr : ∀ s ∈ selection, s.attr.same attr = true

namespace PatchPath

/-! ## Writing -/

/-- Writes a filter or else an attribute, and a sub-attribute. -/
def textOf (attr : Reference) (filter : Option Filter) (sub : Option Name) : String :=
  let head := match filter with
    | some filter => filter.text
    | none => attr.text
  match sub with
  | some sub => head ++ "." ++ sub.text
  | none => head

/-- The filter of a path. -/
def filter? (p : PatchPath) : Option Filter := p.selection.map ElementSelection.filter

/-- Writes a path. -/
def text (p : PatchPath) : String := textOf p.attr p.filter? p.sub

/-- The attribute or sub-attribute that the path leads to. -/
def target (p : PatchPath) : Reference :=
  match p.sub with
  | some sub => p.attr.child sub
  | none => p.attr

/-- Equality of optional filters. -/
def sameFilter : Option Filter → Option Filter → Bool
  | none, none => true
  | some f, some g => f.same g
  | _, _ => false

/-- Equality of paths, part by part. -/
def same (p q : PatchPath) : Bool :=
  p.attr.same q.attr && sameFilter p.filter? q.filter? && Path.sameSub p.sub q.sub

/-! ## Putting together -/

/-- The selection that a filter makes among the elements of an attribute. -/
def selection? (attr : Reference) (filter : Filter) :
    Option { s : ElementSelection // s.attr.same attr = true } :=
  match filter with
  | .complex target inner =>
    if h : target.same attr = true then some ⟨⟨target, inner⟩, h⟩ else none
  | _ => none

/-- Puts a path together.  The attribute must not be a sub-attribute, and a filter must be one on the
    elements of that attribute. -/
def make (attr : Reference) (filter : Option Filter) (sub : Option Name) :
    Except Error PatchPath :=
  let path := textOf attr filter sub
  if h : attr.isSub = true then
    .error (.badPath path "attribute must not be a sub-attribute reference")
  else
    have isTop : attr.isSub = false := by simpa using h
    match filter with
    | none => .ok ⟨attr, none, sub, isTop, by simp⟩
    | some filter =>
      match selection? attr filter with
      | none => .error (.badPath path
          s!"selection filter must be a complex filter on '{attr.text}'")
      | some ⟨s, hs⟩ => .ok ⟨attr, some s, sub, isTop, by
          intro t ht
          cases ht
          exact hs⟩

/-! ## Reading -/

/-- The bracket that closes the first square bracket, with what stands before it, and what stands
    behind it.  Round brackets need not be counted where all brackets match. -/
def splitClosed? (depth : Nat) : List Char → Option (List Char × List Char)
  | [] => none
  | c :: rest =>
    let depth := if c = '[' then depth + 1 else if c = ']' then depth - 1 else depth
    if c = ']' ∧ depth = 0 then some ([c], rest)
    else (splitClosed? depth rest).map fun (inside, after) => (c :: inside, after)

/-- Reads what stands behind a selection: nothing, or a point and the name of a sub-attribute. -/
def readSub (m : Masked) (rest : List Char) : Reading (Option Name) :=
  match rest with
  | [] => .ok none
  | '.' :: name => ((Name.parse (m.unmaskText name)).map some).mapError ([·])
  | rest => .fail (.unknownExpression (m.unmaskText rest))

/-- Reads an attribute or sub-attribute without a selection. -/
def readPlain (catalog : Catalog) (input : List Char) : Except Error PatchPath := do
  let r ← Reference.parse catalog (String.ofList input)
  make r.parent none r.sub

/-- Reads a path with a selection, from the first square bracket on `bracketed`. -/
def readSelecting (catalog : Catalog) (operators : Operators) (input : List Char) (m : Masked)
    (name bracketed : List Char) : Reading PatchPath :=
  match splitClosed? 0 bracketed with
  | none => .fail (.unbalancedBracket '[' (String.ofList input))
  | some (selection, rest) => do
    let sub ← readSub m rest
    let attr ← (Reference.parse catalog (m.unmaskText name)).mapError ([·])
    let filter ← Filter.read catalog operators (m.unmask (name ++ selection))
    (make attr (some filter) sub).mapError ([·])

/-- Reads a path from the characters of a text, and gives the bare mistakes. -/
def read (catalog : Catalog) (operators : Operators) (input : List Char) : Reading PatchPath :=
  let (masked, unclosed) := Masked.mask input
  match Token.unbalanced? [] masked.chars, unclosed with
  | some bracket, _ => .fail (.unbalancedBracket bracket (String.ofList input))
  | none, some literal => .fail (.badOperand (String.ofList literal))
  | none, none =>
    let name := masked.chars.takeWhile (· != '[')
    match masked.chars.dropWhile (· != '[') with
    | [] => (readPlain catalog input).mapError ([·])
    | bracketed => readSelecting catalog operators input masked name bracketed

/-- Reads a path. -/
def parse (catalog : Catalog) (operators : Operators) (input : String) :
    Except Issues PatchPath :=
  (read catalog operators input.toList).mapError fun errors =>
    .ofErrors (errors.map fun e => .badPath input e.message)

/-! ## Selecting -/

/-- Whether an element of the path's attribute is selected.  The question makes no sense for a path
    without a filter, nor for an attribute that the schema does not know. -/
def selects (p : PatchPath) (element : Value) (schema : Schema) : Except Failure Bool :=
  match p.selection with
  | none => .error (.invalidUsage s!"path '{p.text}' has no selection filter")
  | some s =>
    match schema.attributeOf? p.attr with
    | none => .error (.validation (.unknownTarget p.text))
    | some a => .ok (s.inner.holdsForAny a [element])

end PatchPath

end Scim
