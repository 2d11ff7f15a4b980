import Scim.Proofs.Attribute.Kinds
import Scim.Proofs.Base64
import Scim.Proofs.Issues.Halting
import Scim.Proofs.Issues.Within

/-!
  # Conformance

  What a declaration asks of a value can be said without the check that is made: `Attribute.Conforms`.
  Nothing, or null, always conforms.  Otherwise the value is an element, or a list of elements and
  nulls with one primary element at most, and

    * an element of a simple kind is of the kind, its text is written as the kind asks, and it is among
      the canonical values where these are the only ones allowed (`SubAttribute.Admits`);
    * an element of a complex kind is a record whose declared sub-attributes conform in their turn.

  Without further validators the check reports an error just where this fails
  (`Attribute.hasErrors_validate_iff`).  It goes the same way, element by element, and whatever it finds
  in an element is filed below the index of the element.  So the issues there are the ones that the
  element has by itself (`AttributeOf.relativeTo_validateItems`).
-/

namespace Scim

/-! ## Texts -/

/-- The text is a scheme, which starts with a letter, a colon, and something without blanks. -/
def AbsoluteUri (s : String) : Prop :=
  ∃ first scheme rest, s.toList = first :: scheme ++ ':' :: rest ∧ Name.isLetter first = true ∧
    (∀ c ∈ scheme, isSchemeChar c = true) ∧ rest ≠ [] ∧ ∀ c ∈ rest, Text.isBlank c = false

/-- The test for a URI with a scheme is the description in `AbsoluteUri`. -/
theorem isAbsoluteUri_iff {s : String} : isAbsoluteUri s = true ↔ AbsoluteUri s := by
  unfold isAbsoluteUri
  constructor
  · intro h
    dsimp only at h
    split at h
    · rename_i first scheme colon rest hscheme hrest
      -- `dropWhile` stops at the first colon, so the character it stops at is one
      have hcolon : colon = ':' := by
        have hhead := List.head?_dropWhile_not (· != ':') s.toList
        simpa [hrest] using hhead
      have hlist := List.takeWhile_append_dropWhile (p := (· != ':')) (l := s.toList)
      rw [hscheme, hrest, hcolon] at hlist
      simp only [Bool.and_eq_true, List.all_eq_true, Bool.not_eq_true', List.isEmpty_eq_false_iff,
        List.any_eq_false, Bool.not_eq_true] at h
      exact ⟨first, scheme, rest, hlist.symm, h.1.1.1, h.1.1.2, h.1.2, h.2⟩
    · simp at h
  · rintro ⟨first, scheme, rest, hlist, hfirst, hscheme, hrest, hunbroken⟩
    -- no character of the scheme is a colon, so the first colon is the one after it
    have hstops : ∀ c ∈ first :: scheme, (c != ':') = true := by
      intro c hc
      rcases List.mem_cons.mp hc with rfl | hc
      · exact bne_iff_ne.mpr fun hcolon => by simp [hcolon, Name.isLetter] at hfirst
      · have hc := hscheme c hc
        exact bne_iff_ne.mpr fun hcolon => by simp [hcolon, isSchemeChar, Name.isLetter] at hc
    dsimp only
    rw [hlist, List.takeWhile_append_of_pos hstops, List.dropWhile_append_of_pos hstops]
    simpa [hfirst, hrest] using And.intro hscheme hunbroken

/-- The text is something, without blanks. -/
def Unbroken (s : String) : Prop := s ≠ "" ∧ ∀ c ∈ s.toList, Text.isBlank c = false

/-- The test for a text without blanks is the description in `Unbroken`. -/
theorem isUnbroken_iff {s : String} : isUnbroken s = true ↔ Unbroken s := by
  simp [isUnbroken, Unbroken]

/-- A path segment of the reference names a resource type, in the singular or with an s, unless there
    is none to name. -/
def LeadsTo (types : List String) (s : String) : Prop :=
  types = [] ∨ ∃ segment ∈ Text.splitAt '/' s.toList, ∃ type ∈ types,
    Text.sameAscii segment type.toList = true ∨
      Text.sameAscii segment (type.toList ++ ['s']) = true

/-- The test for a reference to one of the resource types, without blanks. -/
theorem leadsTo_iff {types : List String} {s : String} :
    leadsTo types s = true ↔ Unbroken s ∧ LeadsTo types s := by
  simp [leadsTo, LeadsTo, isUnbroken_iff, namesType]

/-! ## Elements of a simple kind -/

/-- The elements of a kind whose text, if they have one, is written as the kind asks. -/
inductive SimpleKind.Conforms : SimpleKind → Value → Prop
  | string (s : String) : Conforms .string (.string s)
  | boolean (b : Bool) : Conforms .boolean (.boolean b)
  | integer (n : Int64) : Conforms .integer (.integer n)
  | decimal (d : Decimal) : Conforms .decimal (.decimal d)
  /-- An integer will do for a decimal. -/
  | whole (n : Int64) : Conforms .decimal (.integer n)
  | dateTime (t : DateTime) : Conforms .dateTime (.dateTime t)
  /-- The text of a date-time will do for the date-time. -/
  | moment {s : String} {t : DateTime} : DateTime.parse? s = some t → Conforms .dateTime (.string s)
  | binary {s : String} {bytes : List UInt8} : s.toList = Base64.encode bytes →
    Conforms .binary (.string s)
  | externalReference {s : String} : AbsoluteUri s → Conforms .externalReference (.string s)
  | uriReference {s : String} : Unbroken s → Conforms .uriReference (.string s)
  | scimReference {types : List String} {s : String} : Unbroken s → LeadsTo types s →
    Conforms (.scimReference types) (.string s)

namespace SimpleKind

variable {k : SimpleKind} {element : Value}

/-- A text is of the kind, and nothing is wrong with it. -/
theorem conforms_string_iff {s : String} :
    k.Conforms (.string s) ↔ k.Takes (.string s) ∧ k.textError? s = none := by
  constructor
  · intro h
    cases h with
    | string => simp [Takes, kindError?, isStringLike, textError?]
    | moment hparse => simp [Takes, kindError?, hparse, textError?]
    | binary hbytes =>
      have hvalid := Base64.isValid_iff.mpr ⟨_, hbytes⟩
      simp [Takes, kindError?, isStringLike, textError?, hvalid]
    | externalReference huri =>
      simp [Takes, kindError?, isStringLike, textError?, isAbsoluteUri_iff.mpr huri]
    | uriReference huri =>
      simp [Takes, kindError?, isStringLike, textError?, isUnbroken_iff.mpr huri]
    | scimReference huri hleads =>
      simp [Takes, kindError?, isStringLike, textError?, leadsTo_iff.mpr ⟨huri, hleads⟩]
  · rintro ⟨htakes, htext⟩
    cases k with
    | string => exact .string s
    | dateTime =>
      simp only [Takes, kindError?, ite_eq_left_iff, reduceCtorEq, imp_false, Classical.not_not,
        Option.isSome_iff_exists] at htakes
      obtain ⟨t, ht⟩ := htakes
      exact .moment ht
    | binary =>
      simp only [textError?, ite_eq_left_iff, reduceCtorEq, imp_false, Classical.not_not,
        Base64.isValid_iff] at htext
      obtain ⟨bytes, hbytes⟩ := htext
      exact .binary hbytes
    | externalReference =>
      simp only [textError?, ite_eq_left_iff, reduceCtorEq, imp_false, Classical.not_not,
        isAbsoluteUri_iff] at htext
      exact .externalReference htext
    | uriReference =>
      simp only [textError?, ite_eq_left_iff, reduceCtorEq, imp_false, Classical.not_not,
        isUnbroken_iff] at htext
      exact .uriReference htext
    | scimReference types =>
      simp only [textError?, ite_eq_left_iff, reduceCtorEq, imp_false, Classical.not_not,
        leadsTo_iff] at htext
      exact .scimReference htext.1 htext.2
    | _ => simp [Takes, kindError?, isStringLike] at htakes

/-- Of what is no text, the kind is all that is asked. -/
theorem conforms_iff_takes (hno : ∀ s, element ≠ .string s) : k.Conforms element ↔ k.Takes element := by
  constructor
  · intro h
    cases h <;> simp [Takes, kindError?] at hno ⊢
  · intro htakes
    cases element with
    -- a text is excluded, and of the others each kind takes its own
    | string s => exact absurd rfl (hno s)
    | boolean b =>
      cases k with
      | boolean => exact .boolean b
      | _ => simp [Takes, kindError?] at htakes
    | integer n =>
      cases k with
      | integer => exact .integer n
      | decimal => exact .whole n
      | _ => simp [Takes, kindError?] at htakes
    | decimal d =>
      cases k with
      | decimal => exact .decimal d
      | _ => simp [Takes, kindError?] at htakes
    | dateTime t =>
      cases k with
      | dateTime => exact .dateTime t
      | _ => simp [Takes, kindError?] at htakes
    | null => exact absurd rfl htakes.ne_null
    | list items => exact absurd rfl (htakes.ne_list items)
    | complex fields => cases k <;> simp [Takes, kindError?] at htakes

/-- What conforms is of the kind. -/
theorem Conforms.takes (h : k.Conforms element) : k.Takes element := by
  cases element with
  | string s => exact (conforms_string_iff.mp h).1
  | _ => exact (conforms_iff_takes (by simp)).mp h

end SimpleKind

namespace Characteristics

variable {c : Characteristics} {s : String} {issues : Issues}

/-- The text is among the canonical values, if there are some and no others are allowed. -/
def Permits (c : Characteristics) (s : String) : Prop :=
  c.restrictCanonical = true → c.canonicalValues ≠ [] →
    ∃ canonical ∈ c.canonicalValues,
      if c.caseExact then canonical = s else Text.lower canonical = Text.lower s

/-- A text is canonical if it is listed, in any casing unless casing matters. -/
theorem isCanonical_iff : c.isCanonical s = true ↔
    ∃ canonical ∈ c.canonicalValues,
      if c.caseExact then canonical = s else Text.lower canonical = Text.lower s := by
  simp only [isCanonical, List.any_eq_true]
  refine exists_congr fun canonical => and_congr_right fun _ => ?_
  split <;> exact beq_iff_eq

/-- The check of canonical values adds an error just if the text is not permitted. -/
theorem hasErrors_checkCanonical_iff : (c.checkCanonical s issues).hasErrors = false ↔
    issues.hasErrors = false ∧ c.Permits s := by
  unfold checkCanonical Permits
  rw [← isCanonical_iff]
  -- no list, a text that is listed, and a list that is no restriction all pass
  cases hnone : c.canonicalValues <;> cases c.isCanonical s <;> cases c.restrictCanonical <;>
    simp

end Characteristics

/-! ## Values -/

namespace Value

/-- The element is a record that is marked as the primary one. -/
def IsPrimary (element : Value) : Prop :=
  ∃ fields, element = .complex fields ∧ Record.get? fields "primary" = some (.boolean true)

/-- No two elements of a list are marked as the primary one. -/
def OnePrimary (value : Value) : Prop :=
  ∀ items, value = .list items →
    items.Pairwise fun left right => ¬(left.IsPrimary ∧ right.IsPrimary)

end Value

/-- The element is what a simple kind asks for, and its text is permitted. -/
def SubAttribute.Admits (a : SubAttribute) (element : Value) : Prop :=
  a.kind.Conforms element ∧ ∀ s, element = .string s → a.Permits s

/-- There is nothing, or each element of the value is admitted. -/
def SubAttribute.Conforms (a : SubAttribute) (value : Value) : Prop :=
  a.HasForm (SubAttribute.Admits a) value

/-- The element is what the kind asks for: a complex one is a record whose declared sub-attributes
    conform. -/
def Attribute.Admits (a : Attribute) (element : Value) : Prop :=
  match a.kind with
  | .simple k =>
    SubAttribute.Admits
      { toCharacteristics := a.toCharacteristics, name := a.name, kind := k } element
  | .complex subs => ∃ fields, element = .complex fields ∧
    ∀ sub ∈ subs.toList, ∀ value ∈ Record.get? fields sub.name.text,
      SubAttribute.Conforms sub value

/-- There is nothing, or each element of the value is admitted, and of many complex ones there is one
    primary element at most. -/
def Attribute.Conforms (a : Attribute) (value : Value) : Prop :=
  a.HasForm (Attribute.Admits a) value ∧
    (a.isComplex = true → a.multiValued = true → value.OnePrimary)

/-! ## What the check reports -/

/-- The form does not depend on how the goodness of elements is said. -/
theorem AttributeOf.hasForm_congr {κ : Type} {a : AttributeOf κ} {good good' : Value → Prop}
    (h : ∀ element, good element ↔ good' element) (value : Value) :
    a.HasForm good value ↔ a.HasForm good' value :=
  ⟨fun hgood => hgood.imp fun element => (h element).mp,
    fun hgood => hgood.imp fun element => (h element).mpr⟩

/-- At most one item passes the test for a property just if no two have it. -/
theorem countP_le_one_iff {α : Type} {test : α → Bool} {marked : α → Prop}
    (h : ∀ item, test item = true ↔ marked item) {items : List α} : items.countP test ≤ 1 ↔
      items.Pairwise fun left right => ¬(marked left ∧ marked right) := by
  induction items with
  | nil => simp
  | cons item rest ih =>
    rw [List.pairwise_cons, List.countP_cons]
    by_cases hitem : marked item
    · -- the first one has it, so no other may
      have hnone : rest.countP test + 1 ≤ 1 ↔ ∀ other ∈ rest, ¬marked other := by
        simp only [← h, ← List.countP_eq_zero]
        omega
      simp only [(h item).mpr hitem, hitem, if_true, hnone, true_and, iff_self_and]
      exact fun hrest => List.pairwise_of_forall_mem_list fun left hleft _ _ hboth =>
        hrest left hleft hboth.1
    · simp [(h item).not.mpr hitem, hitem, ih]

/-- At most one element is counted as primary just if no two are. -/
theorem primaryCount_le_one_iff {items : List Value} : primaryCount items ≤ 1 ↔
    items.Pairwise fun left right => ¬(left.IsPrimary ∧ right.IsPrimary) := by
  unfold primaryCount
  refine countP_le_one_iff fun item => ?_
  cases item with
  | complex fields =>
    simp only [Value.complex?, Option.bind_some, Value.IsPrimary, Value.complex.injEq,
      exists_eq_left']
    split <;> simp_all
  | _ => simp [Value.complex?, Value.IsPrimary]

namespace AttributeOf

variable {κ : Type} {single : Value → Issues} {a : AttributeOf κ}

/-- What is found in an item.  Null is passed over. -/
def foundIn (single : Value → Issues) (item : Value) : Issues :=
  if item.isNull then .empty else single item

/-- The check of a list, with what is found in its first item written out. -/
theorem validateItems_cons (issues : Issues) (index : Nat) (item : Value) (rest : List Value) :
    validateItems single issues index (item :: rest) =
      validateItems single (issues.merge (foundIn single item) (.ofIndex index)) (index + 1) rest := by
  rw [validateItems, foundIn]
  split
  · rw [Issues.merge_empty]
  · rfl

/-! Without further validators the check is one of three things. -/

/-- Where there is one value at most, it is checked as an element. -/
theorem validateWith_of_one (hplain : a.validators = [])
    (hone : a.multiValued = false) (complex : Bool) (value : Value) :
    a.validateWith complex single value = foundIn single value := by
  simp only [validateWith, hplain, hone, List.foldl_nil, ite_self, Bool.false_eq_true, if_false,
    foundIn]

/-- Where there may be many values, anything but a list or null is refused. -/
theorem validateWith_of_not_list (hmany : a.multiValued = true) (complex : Bool)
    {value : Value} (hlist : value.list? = none) : a.validateWith complex single value =
      foundIn (fun value => .fatal (.badType "list" value.typeName) .root) value := by
  cases value with
  | list items => cases hlist
  | _ => simp only [validateWith, hmany, if_true, foundIn]

/-- A list is checked item by item, and then for a second primary element. -/
theorem validateWith_list (hplain : a.validators = [])
    (hmany : a.multiValued = true) (complex : Bool) (items : List Value) :
    a.validateWith complex single (.list items) =
      if complex = true ∧ 1 < primaryCount items then
        (validateItems single .empty 0 items).addError .multiplePrimaryValues true .root
      else validateItems single .empty 0 items := by
  simp [validateWith, hplain, hmany, Value.isNull]

/-- Null passes, and any other item passes if its own check does. -/
theorem hasErrors_foundIn_iff (item : Value) :
    (foundIn single item).hasErrors = false ↔ item = .null ∨ (single item).hasErrors = false := by
  unfold foundIn
  rw [← Value.isNull_iff]
  cases item.isNull <;> simp

/-- A value passes just if it has the form, with good elements, and one of them primary at most. -/
theorem hasErrors_validateWith_iff (hplain : a.validators = []) (complex : Bool) (value : Value) :
    (a.validateWith complex single value).hasErrors = false ↔
      a.HasForm (fun element => (single element).hasErrors = false) value ∧
        (complex = true → a.multiValued = true → value.OnePrimary) := by
  unfold HasForm
  cases hmany : a.multiValued with
  | false =>
    rw [validateWith_of_one hplain hmany, hasErrors_foundIn_iff]
    simp
  | true =>
    cases value with
    | list items =>
      have hitems : (validateItems single .empty 0 items).hasErrors = false ↔ _ :=
        validateItems_iff Issues.hereditary_noErrors items .empty 0
      -- the count is of one or none, which is how the condition is said
      have hone : (Value.list items).OnePrimary ↔ ¬1 < primaryCount items := by
        rw [Nat.not_lt, primaryCount_le_one_iff]
        simp [Value.OnePrimary]
      simp only [Issues.hasErrors_empty, true_and] at hitems
      simp only [validateWith_list hplain hmany, reduceCtorEq, false_or, if_true, Value.list.injEq,
        exists_eq_left', forall_const, hone]
      split
      · rename_i htwo
        simp [htwo.1, htwo.2]
      · rename_i hfew
        rw [hitems]
        simpa using fun _ => not_and.mp hfew
    -- what is neither a list nor null is refused, and it does not have the form
    | _ =>
      rw [validateWith_of_not_list hmany complex rfl, hasErrors_foundIn_iff]
      simp [Value.OnePrimary]

end AttributeOf

namespace SubAttribute

variable {a : SubAttribute}

/-- An element of a simple kind passes its check just if it is admitted. -/
theorem hasErrors_validateSingle_iff (element : Value) :
    (SubAttribute.validateSingle a element).hasErrors = false ↔ SubAttribute.Admits a element := by
  unfold validateSingle Admits
  split
  · rename_i error herror
    -- it is not of the kind, let alone written as the kind asks
    have hnot : ¬a.kind.Conforms element := by
      intro h
      rw [h.takes] at herror
      cases herror
    simp [hnot]
  · rename_i htakes
    cases element with
    | string s =>
      have hconforms : a.kind.Conforms (.string s) ↔ a.kind.textError? s = none :=
        SimpleKind.conforms_string_iff.trans (and_iff_right htakes)
      simp only [Characteristics.hasErrors_checkCanonical_iff, hconforms, Value.string.injEq,
        forall_eq']
      cases a.kind.textError? s with
      | none => simp
      | some found => simp
    | _ => simpa using (SimpleKind.conforms_iff_takes (by simp)).mpr htakes

/-- A sub-attribute without further validators decides conformance of its value. -/
theorem hasErrors_validate_iff (hplain : a.validators = []) (value : Value) :
    (SubAttribute.validate a value).hasErrors = false ↔ SubAttribute.Conforms a value := by
  refine (AttributeOf.hasErrors_validateWith_iff hplain false value).trans ?_
  rw [AttributeOf.hasForm_congr hasErrors_validateSingle_iff value]
  exact and_iff_left (by simp)

end SubAttribute

namespace Attribute

variable {a : Attribute}

/-- An element passes its check just if it is admitted; of a complex one, all that counts are the
    sub-attributes that it has. -/
theorem hasErrors_validateSingle_iff (hplain : Plain a) (element : Value) :
    (Attribute.validateSingle a element).hasErrors = false ↔ Attribute.Admits a element := by
  cases hkind : a.kind with
  | simple k =>
    simp only [validateSingle, Admits, hkind]
    exact SubAttribute.hasErrors_validateSingle_iff element
  | complex subs =>
    simp only [validateSingle, Admits, hkind]
    cases element with
    | complex fields =>
      have hsubs := hplain.subs subs (by simp only [subs?, hkind, Option.mem_def])
      refine (validateSubs_iff Issues.hereditary_noErrors subs.toList fields .empty).trans ?_
      simp only [Issues.hasErrors_empty, true_and, Value.complex.injEq, exists_eq_left']
      refine forall_congr' fun sub => forall_congr' fun hsub => forall_congr' fun value => ?_
      rw [SubAttribute.hasErrors_validate_iff (hsubs sub hsub)]
    | _ => simp

/-- The check reports no error just if the value conforms. -/
theorem hasErrors_validate_iff (hplain : Plain a) (value : Value) :
    (Attribute.validate a value).hasErrors = false ↔ Attribute.Conforms a value :=
  (AttributeOf.hasErrors_validateWith_iff hplain.own a.isComplex value).trans
    (and_congr_left fun _ =>
      AttributeOf.hasForm_congr (hasErrors_validateSingle_iff hplain) value)

end Attribute

/-! ## What is found in one element -/

/-- The check of canonical values keeps issues coherent. -/
theorem Characteristics.coherent_checkCanonical (c : Characteristics) (s : String) {issues : Issues}
    (h : issues.Coherent) : (c.checkCanonical s issues).Coherent := by
  unfold checkCanonical
  split
  · exact h
  · split
    · exact h.addError _ _ _
    · exact h.addWarning _ _

/-- What is found in an element of a simple kind is coherent. -/
theorem SubAttribute.coherent_validateSingle (a : SubAttribute) (element : Value) :
    (SubAttribute.validateSingle a element).Coherent := by
  unfold validateSingle
  split
  · exact Issues.coherent_empty.addError _ _ _
  · split
    · apply Characteristics.coherent_checkCanonical
      split
      · exact Issues.coherent_empty.addError _ _ _
      · exact Issues.coherent_empty
    · exact Issues.coherent_empty

namespace AttributeOf

variable {κ : Type} {single : Value → Issues}

/-- What is found in an item is coherent if what is found in elements is. -/
theorem coherent_foundIn (hsingle : ∀ element, (single element).Coherent) (item : Value) :
    (foundIn single item).Coherent := by
  unfold foundIn
  split
  · exact Issues.coherent_empty
  · exact hsingle item

/-- Items add coherent issues, each below its own index. -/
theorem coherent_validateItems (hsingle : ∀ element, (single element).Coherent)
    (items : List Value) : ∀ {issues : Issues} (index : Nat),
      issues.Coherent → (validateItems single issues index items).Coherent := by
  induction items with
  | nil => exact fun _ h => h
  | cons item rest ih =>
    intro issues index h
    rw [validateItems_cons]
    exact ih (index + 1) (h.merge (coherent_foundIn hsingle item) _)

/-- Without further validators the check of a whole value is coherent. -/
theorem coherent_validateWith {a : AttributeOf κ} (hplain : a.validators = [])
    (hsingle : ∀ element, (single element).Coherent) (complex : Bool) (value : Value) :
    (a.validateWith complex single value).Coherent := by
  unfold validateWith
  simp only [hplain, List.foldl_nil, ite_self]
  split
  · exact Issues.coherent_empty
  · split
    · split
      · have hitems := coherent_validateItems hsingle
        split
        · exact (hitems _ 0 Issues.coherent_empty).addError _ _ _
        · exact hitems _ 0 Issues.coherent_empty
      · exact Issues.coherent_empty.addError _ _ _
    · exact hsingle value

/-- The items from an index on add nothing below smaller indices. -/
theorem relativeTo_validateItems_of_lt (items : List Value) {i : Nat} :
    ∀ {issues : Issues} {index : Nat}, i < index →
      (validateItems single issues index items).relativeTo [.index i] =
        issues.relativeTo [.index i] := by
  induction items with
  | nil => exact fun _ => rfl
  | cons item rest ih =>
    intro issues index hi
    have hne : Step.index index ≠ .index i := by
      rw [ne_eq, Step.index.injEq]
      omega
    rw [validateItems_cons, ih (Nat.lt_succ_of_lt hi)]
    exact Issues.relativeTo_merge_of_apart (Location.apart_singleton hne)

/-- Below its index lies what is found in the item, and nothing else is added there. -/
theorem relativeTo_validateItems (items : List Value) :
    ∀ (issues : Issues) (index i : Nat),
      (validateItems single issues index items).relativeTo [.index (index + i)] =
        (issues.relativeTo [.index (index + i)]).merge (foundIn single (items.getD i .null))
          .root := by
  induction items with
  | nil =>
    intro issues index i
    exact (Issues.merge_empty _ _).symm
  | cons item rest ih =>
    intro issues index i
    rw [validateItems_cons]
    cases i with
    | zero =>
      -- the items that come later have greater indices
      show (validateItems single _ (index + 1) rest).relativeTo [.index index] =
        (issues.relativeTo [.index index]).merge (foundIn single item) .root
      rw [relativeTo_validateItems_of_lt rest (Nat.lt_add_one index)]
      exact Issues.relativeTo_merge issues _ [.index index]
    -- the first item lies beside the index, and the rest starts one further
    | succ i =>
      have hne : Step.index index ≠ .index (index + (i + 1)) := by
        rw [ne_eq, Step.index.injEq]
        omega
      have hnext := ih (issues.merge (foundIn single item) (.ofIndex index)) (index + 1) i
      rw [Nat.add_right_comm, Nat.add_assoc] at hnext
      rw [List.getD_cons_succ, hnext, Location.ofIndex,
        Issues.relativeTo_merge_of_apart (Location.apart_singleton hne)]

/-- The attribute as it would be if it had one value at most. -/
def alone (a : AttributeOf κ) : AttributeOf κ := { a with multiValued := false }

/-- In the list of a multi-valued attribute, below an index lies what is found in the item. -/
theorem relativeTo_validateWith {a : AttributeOf κ} (hplain : a.validators = [])
    (hmany : a.multiValued = true) (hsingle : ∀ element, (single element).Coherent)
    (complex : Bool) (items : List Value) (i : Nat) :
    (a.validateWith complex single (.list items)).relativeTo [.index i] =
      foundIn single (items.getD i .null) := by
  have hitems : (validateItems single .empty 0 items).relativeTo [.index i] =
      foundIn single (items.getD i .null) := by
    have hfound : (validateItems single .empty 0 items).relativeTo [.index (0 + i)] = _ :=
      relativeTo_validateItems items .empty 0 i
    rw [Nat.zero_add] at hfound
    rw [hfound]
    exact (coherent_foundIn hsingle _).merge_root
  rw [validateWith_list hplain hmany]
  split
  · -- a second primary element is reported of the list as a whole
    rw [Issues.relativeTo_addError_of_not_below (by simp [Location.root]), hitems]
  · exact hitems

end AttributeOf

namespace Attribute

variable {a : Attribute}

/-- Sub-attributes add coherent issues, each below its own name. -/
theorem coherent_validateSubs {subs : List SubAttribute}
    (hplain : ∀ sub ∈ subs, sub.validators = []) (fields : Record) {issues : Issues}
    (h : issues.Coherent) : (validateSubs subs fields issues).Coherent := by
  unfold validateSubs
  induction subs generalizing issues with
  | nil => exact h
  | cons sub rest ih =>
    rw [List.foldl_cons]
    apply ih fun other hother => hplain other (List.mem_cons_of_mem sub hother)
    split
    · have hsub := AttributeOf.coherent_validateWith (hplain sub List.mem_cons_self)
        (SubAttribute.coherent_validateSingle sub) false
      exact h.merge (hsub _) _
    · exact h

/-- What is found in an element is coherent, whatever its kind. -/
theorem coherent_validateSingle (hplain : Plain a) (element : Value) :
    (Attribute.validateSingle a element).Coherent := by
  unfold validateSingle
  split
  · exact SubAttribute.coherent_validateSingle _ _
  · rename_i subs hkind
    split
    · have hsubs := hplain.subs subs (by simp only [subs?, hkind, Option.mem_def])
      exact coherent_validateSubs hsubs _ Issues.coherent_empty
    · exact Issues.coherent_empty.addError _ _ _

/-- The check decides conformance, and looks at each element for itself. -/
structure ChecksConformance (a : Attribute) : Prop where
  conforms_iff : ∀ value, (Attribute.validate a value).hasErrors = false ↔ Attribute.Conforms a value
  /-- Below its index, an element has the issues that it has by itself. -/
  elementwise : a.multiValued = true → ∀ items i,
    (Attribute.validate a (.list items)).AgreeAt [.index i]
      (Attribute.validate a.alone (items.getD i .null)) .root

/-- Without further validators, the check of an attribute decides conformance. -/
theorem checksConformance (hplain : Plain a) : ChecksConformance a where
  conforms_iff := hasErrors_validate_iff hplain
  elementwise hmany items i := by
    refine Issues.AgreeAt.of_relativeTo ?_
    have hitem : (Attribute.validate a.alone (items.getD i .null)) =
        AttributeOf.foundIn (Attribute.validateSingle a) (items.getD i .null) :=
      AttributeOf.validateWith_of_one (a := a.alone) hplain.own rfl _ _
    rw [Issues.relativeTo_root, hitem]
    exact AttributeOf.relativeTo_validateWith hplain.own hmany (coherent_validateSingle hplain) _
      items i

end Attribute

/-- Telephones, each at work or at home, one of them the primary one. -/
def telephones : Attribute where
  name := ⟨"telephones", by decide +kernel⟩
  multiValued := true
  kind := .complex
    { toList :=
        [ { name := .value, kind := .uriReference },
          { name := ⟨"line", by decide +kernel⟩
            kind := .string
            canonicalValues := ["work", "home"]
            restrictCanonical := true },
          { name := .primary, kind := .boolean } ]
      distinct := by decide +kernel }

/-- A telephone at work and one at home, with a place left free between them. -/
def twoTelephones (first second : Bool) : Value :=
  .list [ .complex [("value", .string "tel:7"), ("line", .string "Work"), ("primary", .boolean first)],
    .null,
    .complex [("value", .string "tel:8"), ("line", .string "home"), ("primary", .boolean second)] ]

/-- One of two telephones may be the primary one, but not both. -/
theorem Attribute.checksConformance_telephones :
    Attribute.Plain telephones ∧ Attribute.ChecksConformance telephones ∧
      Attribute.Conforms telephones (twoTelephones true false) ∧
        ¬Attribute.Conforms telephones (twoTelephones true true) := by
  have hplain : Attribute.Plain telephones := by decide +kernel
  have hchecks := Attribute.checksConformance hplain
  have hone : (Attribute.validate telephones (twoTelephones true false)).hasErrors = false := by
    decide +kernel
  have hboth : (Attribute.validate telephones (twoTelephones true true)).hasErrors = true := by
    decide +kernel
  refine ⟨hplain, hchecks, (hchecks.conforms_iff _).mp hone, fun h => ?_⟩
  rw [(hchecks.conforms_iff _).mpr h] at hboth
  cases hboth

/-- A telephone that is neither at work nor at home is reported at its line. -/
example : (Attribute.validate telephones (.list [.null, .complex [("line", .string "fax")]])).errors =
    [([.index 1, .name "line"], [.mustBeOneOf ["work", "home"] "fax"])] := by
  decide +kernel

end Scim
