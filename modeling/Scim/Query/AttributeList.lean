import Scim.Issues.Basic
import Scim.Reference
import Scim.Text.Blank

/-!
  # Lists of attributes

  A query lists attributes as references with commas between.  Blank entries count for nothing, and
  an entry that is no reference is reported at its index among the others.
-/

namespace Scim

/-- References, in the order given. -/
abbrev AttributeList := List Reference

namespace AttributeList

/-- The entries of a list that are not blank. -/
def entries (input : String) : List String :=
  ((Text.splitAt ',' input.toList).map Text.trimBlanks).filterMap fun entry =>
    if entry.isEmpty then none else some (String.ofList entry)

/-- Files the mistakes among entries under their indices. -/
def issuesOf (read : List (Except Error Reference)) : Issues :=
  read.zipIdx.foldl (fun issues (entry, i) =>
    match entry with
    | .ok _ => issues
    | .error e => issues.addError e false (.ofIndex i)) .empty

/-- Reads a list. -/
def parse (catalog : Catalog) (input : String) : Except Issues AttributeList :=
  let read := (entries input).map (Reference.parse catalog)
  let issues := issuesOf read
  if issues.hasErrors then .error issues else .ok (read.filterMap (·.toOption))

/-- Writes a list. -/
def text (l : AttributeList) : String := ",".intercalate (l.map Reference.text)

/-- Equality of lists, reference by reference. -/
def same : AttributeList → AttributeList → Bool
  | [], [] => true
  | r :: l, s :: m => r.same s && same l m
  | _, _ => false

end AttributeList

end Scim
