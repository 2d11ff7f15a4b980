import Scim.Patch.Path
import Scim.Schema.Validation

/-!
  # Operations of a modification

  An operation adds, replaces or removes what its path leads to.  Without a path, the value holds
  attributes of the resource itself.

  `Operation.validate` checks an operation against a schema: there must be a path where one is
  needed, a value where one is needed, and the value must be right.  Whatever is read-only must not
  be written, neither as the target nor inside of a value (`checkReadOnly`).  Issues of the target
  lie at `path`, those of the value at and below `value`.
-/

namespace Scim

/-! ## Kinds -/

/-- What an operation does. -/
inductive PatchOp where
  | add
  | replace
  | remove
deriving DecidableEq, Repr

namespace PatchOp

/-- All of them. -/
def all : List PatchOp := [.add, .replace, .remove]

/-- The keyword. -/
def text : PatchOp → String
  | .add => "add"
  | .replace => "replace"
  | .remove => "remove"

/-- Reads the keyword, up to the case of the letters a to z. -/
def parse (s : String) : Except Error PatchOp :=
  match all.find? fun op => Text.sameAscii op.text.toList s.toList with
  | some op => .ok op
  | none => .error (.mustBeOneOf (all.map text) s)

end PatchOp

/-! ## Values that must not be written -/

/-- The containers of a value with their places: the complex items of a list, or the value itself if
    it is complex. -/
def Value.containers (value : Value) (loc : Location) : List (Location × Record) :=
  match value with
  | .list items => items.zipIdx.filterMap fun (item, i) =>
      item.complex?.map fun fields => (loc.childIndex i, fields)
  | .complex fields => [(loc, fields)]
  | _ => []

/-- The error of writing what is read-only. -/
def readOnlyError : Error := .cannotModify Mutability.readOnly.text

/-- Reports the value of a read-only sub-attribute. -/
def SubAttribute.checkReadOnly (a : SubAttribute) (value : Value) (loc : Location)
    (issues : Issues) : Issues :=
  if value.isPresent && a.mutability == .readOnly then issues.addError readOnlyError false loc
  else issues

/-- Reports the values of read-only sub-attributes in a container. -/
def SubAttribute.checkContainer (subs : List SubAttribute) (issues : Issues)
    (container : Location × Record) : Issues :=
  subs.foldl (fun issues sub =>
    match Record.get? container.2 sub.name.text with
    | some value => sub.checkReadOnly value (container.1.childName sub.name.text) issues
    | none => issues) issues

/-- Reports the value of a read-only attribute, or else those of its read-only sub-attributes. -/
def Attribute.checkReadOnly (a : Attribute) (value : Value) (loc : Location) (issues : Issues) :
    Issues :=
  if !value.isPresent then issues
  else if a.mutability == .readOnly then issues.addError readOnlyError false loc
  else match Attribute.subs? a with
    | none => issues
    | some subs => (value.containers loc).foldl (SubAttribute.checkContainer subs.toList) issues

/-- Reports the values of read-only attributes among the attributes of a part. -/
def Schema.Part.checkReadOnly (r : Record) (below : Location) (issues : Issues) (p : Schema.Part) :
    Issues :=
  match p.data r with
  | .error _ => issues
  | .ok fields =>
    p.attributes.toList.foldl (fun issues a =>
      match Record.get? fields a.name.text with
      | some value => Attribute.checkReadOnly a value (below ++ p.locationOf a) issues
      | none => issues) issues

/-! ## Operations -/

/-- An operation of a modification. -/
structure Operation where
  op : PatchOp
  path : Option PatchPath
  value : Option Value

namespace Operation

/-- The value, unless there is none or it is null. -/
def givenValue? (o : Operation) : Option Value :=
  match o.value with
  | none | some .null => none
  | some value => some value

/-- The place of what concerns the target. -/
def atPath : Location := .ofName "path"

/-- The place of what concerns the value. -/
def atValue : Location := .ofName "value"

/-- Checks the value of an operation without a path: attributes of the resource. -/
def validateResource (o : Operation) (schema : Schema) : Issues :=
  match o.givenValue? with
  | none => .fatal .missingValue atValue
  | some (.complex r) =>
    let issues := Issues.empty.merge (schema.validatePartial r) atValue
    schema.parts.foldl (Schema.Part.checkReadOnly r atValue) issues
  | some other => .fatal (.badType "complex" other.typeName) atValue

/-- Checks the value that is added to a target, or replaces it.  A value for the elements that a
    filter selects is the value of one element. -/
def validateValue (o : Operation) (path : PatchPath) (target : Attribute) : Issues :=
  match o.givenValue? with
  | none => .fatal .missingValue atValue
  | some value =>
    let value := if path.selection.isSome && path.sub.isNone then .list [value] else value
    let issues := Issues.empty.merge (Attribute.validate target value) atValue
    Attribute.checkReadOnly target value atValue issues

/-- Whether a target may not be written, by itself or because of the attribute that it lies in. -/
def isReadOnly (schema : Schema) (q : Qualified) (target : Attribute) : Bool :=
  target.mutability == .readOnly ||
    q.isSub && (schema.attribute? q.parent).any (·.mutability == .readOnly)

/-- Checks an operation with a path. -/
def validateTarget (o : Operation) (schema : Schema) (path : PatchPath) : Issues :=
  match (schema.resolve? path.target).bind fun q => (schema.attribute? q).map (q, ·) with
  | none => .fatal (.unknownTarget path.text) atPath
  | some (q, target) =>
    if isReadOnly schema q target then .fatal readOnlyError atPath
    else match o.op with
      | .remove =>
        if target.required && !target.multiValued then .fatal .cannotRemoveRequired atPath
        else .empty
      | .add | .replace => o.validateValue path target

/-- Checks an operation. -/
def validate (o : Operation) (schema : Schema) : Issues :=
  match o.path, o.op with
  | none, .remove => .fatal .missingPath atPath
  | none, _ => o.validateResource schema
  | some path, _ => o.validateTarget schema path

end Operation

end Scim
