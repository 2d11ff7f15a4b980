/-!
  # Locations

  Where in a value an issue lies: the steps from the root, each the name of an attribute or the
  index of a list element.
-/

namespace Scim

/-- One step into a value. -/
inductive Step where
  | name (s : String)
  | index (n : Nat)
deriving DecidableEq, Repr

/-- A step as it is shown. -/
def Step.text : Step → String
  | .name s => s
  | .index n => toString n

/-- The steps from the root. -/
abbrev Location := List Step

namespace Location

/-- The place of the value itself. -/
def root : Location := []

/-- The place of an attribute. -/
def ofName (s : String) : Location := [.name s]

/-- The place of an element. -/
def ofIndex (n : Nat) : Location := [.index n]

/-- One step further. -/
def child (l : Location) (step : Step) : Location := l ++ [step]

/-- An attribute below a place. -/
def childName (l : Location) (s : String) : Location := l ++ [.name s]

/-- An element below a place. -/
def childIndex (l : Location) (n : Nat) : Location := l ++ [.index n]

/-- Whether a place lies at or below another. -/
def startsWith (l above : Location) : Bool := above.isPrefixOf l

/-- The way from a place down to one at or below it. -/
def relativeTo? (l above : Location) : Option Location :=
  match l, above with
  | l, [] => some l
  | [], _ :: _ => none
  | s :: l, t :: above => if s = t then relativeTo? l above else none

/-- The steps with points between. -/
def text (l : Location) : String := ".".intercalate (l.map Step.text)

end Location

end Scim
