import Scim.Attribute.Characteristics
import Scim.Name

/-!
  # Attributes

  An attribute has a name, a kind and characteristics.  A complex attribute has sub-attributes, and
  these are simple: the type says so (`SubAttribute`, `Attribute`), and `Attribute.build` rejects
  what it can not say.  Attributes come in sets, in which no name occurs twice up to case.
-/

namespace Scim

/-! ## Kinds -/

/-- The kinds of attributes without sub-attributes. -/
inductive SimpleKind where
  | string
  | boolean
  | integer
  | decimal
  | dateTime
  | binary
  /-- To a resource outside the service provider. -/
  | externalReference
  /-- To a URI, such as a schema. -/
  | uriReference
  /-- To a resource of one of these types, of any type if there are none. -/
  | scimReference (resourceTypes : List String)
deriving DecidableEq, Repr

namespace SimpleKind

/-- The data type of the values. -/
def type : SimpleKind → AttributeType
  | .string => .string
  | .boolean => .boolean
  | .integer => .integer
  | .decimal => .decimal
  | .dateTime => .dateTime
  | .binary => .binary
  | .externalReference | .uriReference | .scimReference _ => .reference

/-- Whether values are strings in JSON. -/
def isStringLike : SimpleKind → Bool
  | .string | .binary | .externalReference | .uriReference | .scimReference _ => true
  | _ => false

/-- What references may point to. -/
def referenceTypes? : SimpleKind → Option (List String)
  | .externalReference => some ["external"]
  | .uriReference => some ["uri"]
  | .scimReference resourceTypes => some resourceTypes
  | _ => none

end SimpleKind

/-- An attribute whose kind is one of `κ`. -/
structure AttributeOf (κ : Type) extends Characteristics where
  name : Name
  kind : κ

/-- The keys that attributes are found by. -/
def AttributeOf.keys {κ : Type} (attrs : List (AttributeOf κ)) : List String :=
  attrs.map (·.name.key)

/-- Attributes in order, no two of one name up to case. -/
structure AttributeSet (κ : Type) where
  toList : List (AttributeOf κ)
  distinct : (AttributeOf.keys toList).Nodup

/-- The kinds of attributes. -/
inductive Kind where
  | simple (k : SimpleKind)
  | complex (subs : AttributeSet SimpleKind)

/-- An attribute of a complex attribute. -/
abbrev SubAttribute := AttributeOf SimpleKind

/-- An attribute of a schema. -/
abbrev Attribute := AttributeOf Kind

/-! ## Sets of attributes -/

namespace AttributeSet

variable {κ : Type}

/-- No attributes. -/
def empty : AttributeSet κ := ⟨[], by simp [AttributeOf.keys]⟩

/-- Puts an attribute at the end, unless its name is taken. -/
def add (s : AttributeSet κ) (a : AttributeOf κ) : Except BuildError (AttributeSet κ) :=
  if h : a.name.key ∈ AttributeOf.keys s.toList then .error (.duplicateAttribute a.name.text)
  else .ok ⟨s.toList ++ [a], by
    have hs := s.distinct
    simp only [AttributeOf.keys, List.map_append, List.map_cons, List.map_nil] at *
    rw [List.nodup_append]
    exact ⟨hs, by simp, fun k hk k' hk' => by
      rw [List.mem_singleton] at hk'
      exact fun e => h (hk' ▸ e ▸ hk)⟩⟩

/-- The set of the attributes of a list, which must not repeat a name. -/
def ofList (attrs : List (AttributeOf κ)) : Except BuildError (AttributeSet κ) :=
  attrs.foldlM add empty

/-- An attribute that is added stands at the end. -/
theorem toList_of_add {s t : AttributeSet κ} {a : AttributeOf κ} (h : s.add a = .ok t) :
    t.toList = s.toList ++ [a] := by
  unfold add at h
  split at h
  · simp at h
  · simp only [Except.ok.injEq] at h
    rw [← h]

/-- Attributes that are added one after the other stand there in this order. -/
theorem toList_of_foldlM_add {attrs : List (AttributeOf κ)} :
    ∀ {s t : AttributeSet κ}, attrs.foldlM add s = .ok t → t.toList = s.toList ++ attrs := by
  induction attrs with
  | nil =>
    intro s t h
    obtain rfl : s = t := by simpa [pure, Except.pure] using h
    simp
  | cons a rest ih =>
    intro s t h
    rw [List.foldlM_cons] at h
    obtain ⟨middle, hadd, hrest⟩ := bind_eq_ok.mp h
    rw [ih hrest, toList_of_add hadd, List.append_assoc, List.singleton_append]

/-- A set keeps the order of the list it is made of. -/
theorem toList_of_ofList {attrs : List (AttributeOf κ)} {s : AttributeSet κ}
    (h : ofList attrs = .ok s) : s.toList = attrs := by
  simpa [empty] using toList_of_foldlM_add h

/-- The number of attributes. -/
def size (s : AttributeSet κ) : Nat := s.toList.length

/-- The attribute whose name has the given lower-case form. -/
def findKey? (s : AttributeSet κ) (key : String) : Option (AttributeOf κ) :=
  s.toList.find? (·.name.key == key)

/-- The attribute of a name. -/
def find? (s : AttributeSet κ) (name : Name) : Option (AttributeOf κ) := s.findKey? name.key

/-- The attribute whose name is a text up to case. -/
def findText? (s : AttributeSet κ) (text : String) : Option (AttributeOf κ) :=
  s.findKey? (Text.lower text)

end AttributeSet

/-! ## Attributes -/

/-- A sub-attribute seen as an attribute. -/
def SubAttribute.lift (a : SubAttribute) : Attribute :=
  { toCharacteristics := a.toCharacteristics, name := a.name, kind := .simple a.kind }

namespace Attribute

/-- The data type of the values. -/
def type (a : Attribute) : AttributeType :=
  match a.kind with
  | .simple k => k.type
  | .complex _ => .complex

/-- Whether the attribute has sub-attributes. -/
def isComplex (a : Attribute) : Bool :=
  match a.kind with
  | .simple _ => false
  | .complex _ => true

/-- The sub-attributes of a complex attribute. -/
def subs? (a : Attribute) : Option (AttributeSet SimpleKind) :=
  match a.kind with
  | .simple _ => none
  | .complex subs => some subs

/-- Whether values are strings in JSON. -/
def isStringLike (a : Attribute) : Bool :=
  match a.kind with
  | .simple k => k.isStringLike
  | .complex _ => false

/-- The attribute as a sub-attribute, unless it is complex. -/
def asSub? (a : Attribute) : Option SubAttribute :=
  match a.kind with
  | .simple k => some { toCharacteristics := a.toCharacteristics, name := a.name, kind := k }
  | .complex _ => none

/-! ## Building -/

/-- Adds a sub-attribute to those of a complex attribute; it must not be complex in its turn. -/
def addSub (parent : Name) (subs : AttributeSet SimpleKind) (a : Attribute) :
    Except BuildError (AttributeSet SimpleKind) :=
  match a.asSub? with
  | none => .error (.nestedComplexAttribute parent.text a.name.text)
  | some sub => subs.add sub

/-- Builds an attribute.  Without a simple kind it is complex, and may have sub-attributes. -/
def build (name : String) (kind : Option SimpleKind) (subs : List Attribute)
    (c : Characteristics) : Except BuildError Attribute := do
  let name ← (Name.parse name).mapError fun _ => BuildError.invalidName name
  match kind with
  | none =>
    let subs ← subs.foldlM (addSub name) .empty
    return { toCharacteristics := c, name, kind := .complex subs }
  | some k =>
    if subs.isEmpty then return { toCharacteristics := c, name, kind := .simple k }
    else throw (.invalidConfiguration
      s!"'{name.text}' of type '{k.type.text}' can not have sub-attributes")

end Attribute

end Scim
