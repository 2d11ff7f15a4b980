import Scim.Record.Key
import Scim.Value.Basic

/-!
  # Reading and changing a resource by key

    * `getAt?` reads what a key addresses.  A sub-attribute of a list is read from each of its
      elements, and gives the list of what was found.
    * `setAt` writes it.  Missing parents are made; a list of values is dealt out to the elements of
      a list, and further elements are made for the values left over.  What stands in the way of a
      key is an error, never overwritten.
    * `popAt` takes it out.

  `setAt` gives back the record also where it fails: dealing out stops at the first element that can
  not take its value, and the elements before it have taken theirs.
-/

namespace Scim.Record

/-! ## Reading -/

/-- A sub-attribute of a value; elements without it read as `lacking`. -/
def getSub? (value : Value) (sub : Name) (lacking : Value) : Option Value :=
  match value with
  | .complex fields => get? fields sub.text
  | .list items => some <| .list <| items.map fun item =>
      (item.complex?.bind fun fields => get? fields sub.text).getD lacking
  | _ => none

/-- An attribute or sub-attribute of a record. -/
def getPath? (r : Record) (path : Path) (lacking : Value) : Option Value := do
  let value ← get? r path.attr.text
  match path.sub with
  | none => some value
  | some sub => getSub? value sub lacking

/-- What a key addresses, if anything; list elements without a sub-attribute read as `lacking`. -/
def getAt? (r : Record) (key : Key) (lacking : Value) : Option Value :=
  match key with
  | .extension uri => get? r uri.text
  | .attr none path => getPath? r path lacking
  | .attr (some uri) path => do
    let fields ← (← get? r uri.text).complex?
    getPath? fields path lacking

/-- What a key addresses, if it is there and not null. -/
def hasAt (r : Record) (key : Key) : Bool :=
  match getAt? r key .null with
  | some value => !value.isNull
  | none => false

/-- What the key made from a source addresses, if there is such a key. -/
def read? (catalog : Catalog) (r : Record) (source : Key.Source) : Option Value :=
  (source.key catalog).toOption.bind fun key => getAt? r key .null

/-! ## Writing -/

/-- An element with nothing but a sub-attribute. -/
def element (sub : Name) (value : Value) : Value := .complex (single sub.text value)

/-- Deals values out to the elements of a list, from the element `index` on. -/
def deal (sub : Name) (conflict : String → Error) (index : Nat) :
    List Value → List Value → List Value × Option Error
  | items, [] => (items, none)
  | [], values => (values.map (element sub), none)
  | .complex fields :: items, value :: values =>
    let (items, error) := deal sub conflict (index + 1) items values
    (.complex (insert fields sub.text value) :: items, error)
  | .null :: items, value :: values =>
    let (items, error) := deal sub conflict (index + 1) items values
    (element sub value :: items, error)
  | item :: items, _ :: _ =>
    (item :: items, some (conflict s!"element {index} is '{item.typeName}', not complex"))

/-- Writes a sub-attribute. -/
def setSub (r : Record) (attr sub : Name) (value : Value) : Record × Option Error :=
  let conflict := Error.typeConflict (attr.text ++ "." ++ sub.text)
  match get? r attr.text with
  | none | some .null =>
    let parent := match value with
      | .list values => .list (values.map (element sub))
      | value => element sub value
    (insert r attr.text parent, none)
  | some (.complex fields) =>
    (update r attr.text (.complex (insert fields sub.text value)), none)
  | some (.list items) =>
    match value with
    | .list values =>
      let (items, error) := deal sub conflict 0 items values
      (update r attr.text (.list items), error)
    | other =>
      (r, some (conflict
        s!"'{attr.text}' is multi-valued, expected a list but got '{other.typeName}'"))
  | some other => (r, some (conflict s!"'{attr.text}' is '{other.typeName}', not complex"))

/-- Writes an attribute or sub-attribute. -/
def setPath (r : Record) (path : Path) (value : Value) : Record × Option Error :=
  match path.sub with
  | none => (insert r path.attr.text value, none)
  | some sub => setSub r path.attr sub value

/-- Writes what a key addresses, and says what went wrong. -/
def setAt (r : Record) (key : Key) (value : Value) : Record × Option Error :=
  match key with
  | .extension uri =>
    match value with
    | .complex _ | .null => (insert r uri.text value, none)
    | other => (r, some (.typeConflict uri.text
        s!"extension data must be complex, got '{other.typeName}'"))
  | .attr none path => setPath r path value
  | .attr (some uri) path =>
    match get? r uri.text with
    | some (.complex fields) =>
      let (fields, error) := setPath fields path value
      (update r uri.text (.complex fields), error)
    | none | some .null =>
      let (fields, error) := setPath [] path value
      (insert r uri.text (.complex fields), error)
    | some other => (r, some (.typeConflict uri.text s!"extension data is '{other.typeName}'"))

/-- Writes what the key made from a source addresses. -/
def write (catalog : Catalog) (r : Record) (source : Key.Source) (value : Value) :
    Record × Option Error :=
  match source.key catalog with
  | .ok key => setAt r key value
  | .error e => (r, some e)

/-! ## Taking out -/

/-- Takes a sub-attribute out of a value. -/
def popSub (value : Value) (sub : Name) : Option Value × Value :=
  match value with
  | .complex fields => (get? fields sub.text, .complex (erase fields sub.text))
  | .list items =>
    (getSub? (.list items) sub .null, .list <| items.map fun item =>
      match item with
      | .complex fields => .complex (erase fields sub.text)
      | other => other)
  | other => (none, other)

/-- Takes an attribute or sub-attribute out of a record. -/
def popPath (r : Record) (path : Path) : Option Value × Record :=
  match path.sub with
  | none => (get? r path.attr.text, erase r path.attr.text)
  | some sub =>
    match get? r path.attr.text with
    | none => (none, r)
    | some value =>
      let (taken, value) := popSub value sub
      (taken, update r path.attr.text value)

/-- Takes out what a key addresses. -/
def popAt (r : Record) (key : Key) : Option Value × Record :=
  match key with
  | .extension uri => (get? r uri.text, erase r uri.text)
  | .attr none path => popPath r path
  | .attr (some uri) path =>
    match get? r uri.text with
    | some (.complex fields) =>
      let (taken, fields) := popPath fields path
      (taken, update r uri.text (.complex fields))
    | _ => (none, r)

/-- Takes out what the key made from a source addresses, if there is such a key. -/
def takeOut (catalog : Catalog) (r : Record) (source : Key.Source) : Option Value × Record :=
  ((source.key catalog).toOption.map r.popAt).getD (none, r)

end Scim.Record
