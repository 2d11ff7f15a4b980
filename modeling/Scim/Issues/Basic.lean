import Scim.Error
import Scim.Issues.Location

/-!
  # Issues

  What is found wrong with a value is collected, not thrown: errors and warnings are filed under the
  places where they lie (`Filed`), places in the order of their first use.  An error may halt: then
  nothing more is to be checked at its place or below, though it may be elsewhere.

    * `addError`, `addWarning` and `merge` collect; `merge` puts a whole collection below a place;
    * `select` picks issues by code and place, `drop` removes just those, and `pop` does both;
    * `canProceed` and `canProceedAt` say what is left to be checked.
-/

namespace Scim

/-! ## Filing under places -/

/-- Items under places, the places in the order of their first use. -/
abbrev Filed (α : Type) := List (Location × List α)

namespace Filed

/-- Files items under a place, after those already there. -/
def add {α : Type} (f : Filed α) (loc : Location) (items : List α) : Filed α :=
  match f with
  | [] => [(loc, items)]
  | (l, old) :: rest =>
    if l = loc then (l, old ++ items) :: rest else (l, old) :: add rest loc items

/-- What is filed under a place. -/
def under {α : Type} (f : Filed α) (loc : Location) : List α :=
  match f with
  | [] => []
  | (l, items) :: rest => if l = loc then items else under rest loc

/-- Files everything of the second collection below a place. -/
def merge {α : Type} (f other : Filed α) (below : Location) : Filed α :=
  other.foldl (fun f (l, items) => f.add (below ++ l) items) f

/-- All items with their places. -/
def all {α : Type} (f : Filed α) : List (Location × α) :=
  f.flatMap fun (l, items) => items.map fun item => (l, item)

/-- The items that pass the test at or below a place, at their way from there; places left without
    items are dropped. -/
def select {α : Type} (f : Filed α) (test : α → Bool) (below : Location) : Filed α :=
  f.filterMap fun (l, items) => do
    let relative ← Location.relativeTo? l below
    match items.filter test with
    | [] => none
    | picked => some (relative, picked)

/-- Everything but the items that pass the test at or below a place. -/
def drop {α : Type} (f : Filed α) (test : α → Bool) (below : Location) : Filed α :=
  f.filterMap fun (l, items) =>
    if Location.startsWith l below then
      match items.filter (fun item => !test item) with
      | [] => none
      | kept => some (l, kept)
    else some (l, items)

end Filed

/-! ## The collection -/

/-- Errors, warnings, and the places and codes of the errors that halt. -/
structure Issues where
  errors : Filed Error
  warnings : Filed Warning
  halts : List (Location × Nat)
deriving DecidableEq, Repr

namespace Issues

/-- Nothing found. -/
def empty : Issues := ⟨[], [], []⟩

/-- Adds an error; unless checking may `proceed`, it halts. -/
def addError (x : Issues) (error : Error) (proceed : Bool) (loc : Location) : Issues :=
  ⟨x.errors.add loc [error], x.warnings,
    if proceed then x.halts else x.halts ++ [(loc, error.code)]⟩

/-- Adds a warning. -/
def addWarning (x : Issues) (warning : Warning) (loc : Location) : Issues :=
  ⟨x.errors, x.warnings.add loc [warning], x.halts⟩

/-- Adds all of another collection, below a place. -/
def merge (x other : Issues) (below : Location) : Issues :=
  ⟨x.errors.merge other.errors below, x.warnings.merge other.warnings below,
    x.halts ++ other.halts.map fun (l, code) => (below ++ l, code)⟩

/-- An error that halts, and nothing else. -/
def fatal (error : Error) (loc : Location) : Issues := empty.addError error false loc

/-- An error that halts nothing, and nothing else. -/
def mild (error : Error) (loc : Location) : Issues := empty.addError error true loc

/-- Errors that all halt at the root. -/
def ofErrors (errors : List Error) : Issues :=
  errors.foldl (fun issues e => issues.addError e false .root) empty

/-! ## Picking issues out -/

/-- Which codes are meant: all of them, or those listed. -/
inductive Codes where
  | all
  | only (codes : List Nat)
deriving DecidableEq, Repr

/-- Whether a code is meant. -/
def Codes.has : Codes → Nat → Bool
  | .all, _ => true
  | .only codes, code => codes.contains code

/-- The error and warning codes meant by two optional lists.  Without any list everything is meant;
    a list for one kind alone leaves out the other kind. -/
def Codes.ofLists (errors warnings : Option (List Nat)) : Codes × Codes :=
  match errors, warnings with
  | none, none => (.all, .all)
  | errors, warnings => (.only (errors.getD []), .only (warnings.getD []))

/-- Whether the errors filed under a place that are meant hold one with a code. -/
def holdsCode (x : Issues) (meant : Codes) (loc : Location) (code : Nat) : Bool :=
  meant.has code && (x.errors.under loc).any (·.code == code)

/-- The issues with the codes meant, at or below a place, at their way from there. -/
def select (x : Issues) (errors warnings : Option (List Nat)) (below : Location) : Issues :=
  let (errorCodes, warningCodes) := Codes.ofLists errors warnings
  ⟨x.errors.select (fun e => errorCodes.has e.code) below,
    x.warnings.select (fun w => warningCodes.has w.code) below,
    x.halts.filterMap fun (l, code) =>
      if x.holdsCode errorCodes l code then
        (Location.relativeTo? l below).map fun relative => (relative, code)
      else none⟩

/-- All other issues. -/
def drop (x : Issues) (errors warnings : Option (List Nat)) (below : Location) : Issues :=
  let (errorCodes, warningCodes) := Codes.ofLists errors warnings
  ⟨x.errors.drop (fun e => errorCodes.has e.code) below,
    x.warnings.drop (fun w => warningCodes.has w.code) below,
    x.halts.filter fun (l, code) =>
      !(Location.startsWith l below && x.holdsCode errorCodes l code)⟩

/-- Picks issues out, and gives what is picked and what is left. -/
def pop (x : Issues) (errors warnings : Option (List Nat)) (below : Location) : Issues × Issues :=
  (x.select errors warnings below, x.drop errors warnings below)

/-! ## Questions -/

/-- Whether nothing halts. -/
def canProceed (x : Issues) : Bool := x.halts.isEmpty

/-- Whether nothing halts at a place or above it. -/
def canProceedAt (x : Issues) (loc : Location) : Bool :=
  x.halts.all fun (l, _) => !Location.startsWith loc l

/-- Whether nothing halts at any of the places or above them. -/
def canProceedAtAll (x : Issues) (locs : List Location) : Bool := locs.all x.canProceedAt

/-- Checks further, unless something halts at a place or above it. -/
def unlessHalted (x : Issues) (loc : Location) (check : Issues → Issues) : Issues :=
  if x.canProceedAt loc then check x else x

/-- Whether there are errors. -/
def hasErrors (x : Issues) : Bool := !x.errors.isEmpty

/-- Whether there are errors at or below one of the places. -/
def hasErrorsAt (x : Issues) (locs : List Location) : Bool :=
  x.errors.any fun (l, _) => locs.any (Location.startsWith l ·)

/-- Whether there are warnings. -/
def hasWarnings (x : Issues) : Bool := !x.warnings.isEmpty

/-- Whether there are neither errors nor warnings. -/
def isEmpty (x : Issues) : Bool := x.errors.isEmpty && x.warnings.isEmpty

/-- All errors with their places. -/
def allErrors (x : Issues) : List (Location × Error) := x.errors.all

/-- All warnings with their places. -/
def allWarnings (x : Issues) : List (Location × Warning) := x.warnings.all

/-- The errors at a place. -/
def errorsAt (x : Issues) (loc : Location) : List Error := x.errors.under loc

/-- The warnings at a place. -/
def warningsAt (x : Issues) (loc : Location) : List Warning := x.warnings.under loc

/-- The codes of the errors at a place. -/
def errorCodesAt (x : Issues) (loc : Location) : List Nat := (x.errorsAt loc).map Error.code

end Issues

end Scim
