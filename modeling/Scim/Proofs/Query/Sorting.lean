import Scim.Proofs.Attribute.Conformance
import Scim.Proofs.Record.Entries
import Scim.Proofs.Schema.Creation
import Scim.Proofs.Value.Order
import Scim.Query.Sorting

/-!
  # Sorting is a stable sort

  Resources are compared by keys, and keys of different kinds count as equal, which is no order.
  That it never comes to this is due to the check of attributes.

    * What a resource is sorted by is stated apart from how it is computed (`Sorter.HasKey`,
      `Sorter.key?_eq_some_iff`).
    * If the value of the attribute passes its check, then what is found in it, primary element and
      sub-attribute, is of the declared type, and so is the form in which it is compared
      (`Sorter.Finds.keys`).  Hence any two keys have an order (`Sorter.HasKey.sortsWith`).
    * The sort needs an order of the members of its list only (`TotalPreorderOn`): one sorts the
      members as what they are, members, and forgets this again.
-/

namespace Scim

/-! ## What counts of a value -/

namespace Value

/-- The element of a value that counts: the value itself, unless it is a list; of a list the first
    element that is marked as primary, or else the first. -/
inductive Leads : Value → Value → Prop
  | single {value : Value} (h : value.list? = none) : Leads value value
  | primary {before after : List Value} {element : Value}
    (hbefore : ∀ item ∈ before, ¬item.IsPrimary) (h : element.IsPrimary) :
    Leads (.list (before ++ element :: after)) element
  | first {after : List Value} {element : Value} (h : ∀ item ∈ element :: after, ¬item.IsPrimary) :
    Leads (.list (element :: after)) element

/-- Whether a value is marked as primary, computed. -/
theorem isPrimary_iff {item : Value} : item.IsPrimary ↔
    ((item.complex?.bind fun fields => Record.get? fields "primary").any fun v =>
      v.boolean? == some true) = true := by
  -- only a complex value can be marked
  cases item with
  | complex fields =>
    simp only [IsPrimary, complex.injEq, exists_eq_left', complex?, Option.bind_some]
    cases Record.get? fields "primary" with
    | none => simp
    | some v => cases v <;> simp [boolean?]
  | _ => simp [IsPrimary, complex?]

/-- What is taken from a list is the element that counts. -/
theorem primaryOrFirst?_eq_some_iff {items : List Value} {element : Value} :
    primaryOrFirst? items = some element ↔ Leads (.list items) element := by
  unfold primaryOrFirst?
  rw [Option.or_eq_some_iff, List.find?_eq_some_iff_append, List.find?_eq_none]
  simp only [← isPrimary_iff, Bool.not_eq_true']
  constructor
  · -- the first that is marked, or none is marked and it is the first of all
    rintro (⟨hprimary, before, after, rfl, hbefore⟩ | ⟨hnone, hhead⟩)
    · refine .primary (fun item hitem => ?_) hprimary
      rw [isPrimary_iff, hbefore item hitem]
      exact Bool.false_ne_true
    · obtain ⟨after, rfl⟩ := List.head?_eq_some_iff.mp hhead
      exact .first hnone
  · intro h
    cases h with
    | single h => nomatch h
    | @primary before after _ hbefore h =>
      refine .inl ⟨h, before, after, rfl, fun item hitem => ?_⟩
      rw [← Bool.not_eq_true, ← isPrimary_iff]
      exact hbefore item hitem
    | first h => exact .inr ⟨h, rfl⟩

/-- The element that counts, computed. -/
def lead? : Value → Option Value
  | .list items => primaryOrFirst? items
  | value => some value

/-- The element that is computed is the one that counts. -/
theorem lead?_eq_some_iff {value element : Value} :
    value.lead? = some element ↔ value.Leads element := by
  cases value with
  | list items => exact primaryOrFirst?_eq_some_iff
  | _ =>
    refine ⟨fun h => ?_, fun h => ?_⟩
    · obtain rfl := Option.some.inj h
      exact .single rfl
    · cases h with
      | single => rfl

/-- The element that counts is one of the elements. -/
theorem Leads.mem_elements {value element : Value} (h : value.Leads element) :
    element ∈ Filter.elements value := by
  cases h with
  | single h =>
    cases value with
    | list items => nomatch h
    | _ => exact List.mem_singleton.mpr rfl
  | primary hbefore h => exact List.mem_append_right _ List.mem_cons_self
  | first h => exact List.mem_cons_self

end Value

namespace Sorter

/-! ## Keys -/

section

variable {s : Sorter} {schema : Schema} {r : Record} {q : Qualified} {top a : Attribute}
  {element found key : Value} {sub : Name}

/-- What is compared of an element, and the attribute that it is a value of: the element itself, or
    a sub-attribute of it, the one that is named or `value`. -/
inductive Finds (q : Qualified) (top : Attribute) : Value → Attribute → Value → Prop
  | itself (element : Value) (hpath : q.path.sub = none) (hsimple : top.isComplex = false) :
    Finds q top element top element
  | sub {sub : Name} {subs : AttributeSet SimpleKind} {d : SubAttribute} {fields : Record}
    {found : Value} (hpath : q.path.sub = some sub ∨ q.path.sub = none ∧ sub = .value)
    (hsubs : top.subs? = some subs) (hfind : subs.find? sub = some d)
    (hget : fields.get? sub.text = some found) : Finds q top (.complex fields) d.lift found

/-- A resource has a key: of the value of its attribute the element that counts, as far as it is
    compared and in the form in which it is. -/
inductive HasKey (s : Sorter) (schema : Schema) (r : Record) : Value → Prop
  | intro {q : Qualified} {top a : Attribute} {value element found : Value}
    (hresolve : schema.resolve? s.attr = some q) (htop : schema.attribute? q.parent = some top)
    (hvalue : r.getAt? (.ofQualified q.parent) .null = some value)
    (hpresent : value.isPresent = true) (hleads : value.Leads element)
    (hfinds : Finds q top element a found) (hfound : found.isPresent = true) :
    HasKey s schema r (a.comparable found)

/-- The attribute whose values are compared. -/
def compared? (s : Sorter) (schema : Schema) : Option Attribute := do
  let q ← schema.resolve? s.attr
  let top ← schema.attribute? q.parent
  match sub? q top with
  | none => some top
  | some sub => ((← top.subs?).find? sub).map SubAttribute.lift

/-- No sub-attribute is compared just if none is named and the attribute is simple. -/
theorem sub?_eq_none_iff : sub? q top = none ↔ q.path.sub = none ∧ top.isComplex = false := by
  unfold sub?
  cases q.path.sub with
  | some sub => simp
  | none => cases top.isComplex <;> simp

/-- A sub-attribute is compared if it is named, or if it is `value` and none is. -/
theorem sub?_eq_some_iff : sub? q top = some sub ↔
    q.path.sub = some sub ∨ q.path.sub = none ∧ top.isComplex = true ∧ sub = .value := by
  unfold sub?
  cases q.path.sub with
  | some sub => simp
  | none => cases top.isComplex <;> simp [eq_comm]

/-- The second form, for an attribute whose sub-attributes are known. -/
theorem sub?_of_subs? {subs : AttributeSet SimpleKind}
    (hpath : q.path.sub = some sub ∨ q.path.sub = none ∧ sub = .value)
    (hsubs : top.subs? = some subs) : sub? q top = some sub := by
  have hcomplex : top.isComplex = true := by
    rw [Attribute.isComplex, Attribute.kind_of_subs? hsubs]
  exact sub?_eq_some_iff.mpr (hpath.imp_right fun h => ⟨h.1, hcomplex, h.2⟩)

/-- What is compared of an element, computed. -/
def found? (q : Qualified) (top : Attribute) (element : Value) : Option (Value × Attribute) :=
  match sub? q top with
  | none => some (element, top)
  | some sub => do
    let found ← Record.get? (← element.complex?) sub.text
    let a ← (← top.subs?).find? sub
    some (found, SubAttribute.lift a)

/-- What is computed from an element is what is compared of it. -/
theorem found?_eq_some_iff : found? q top element = some (found, a) ↔
    Finds q top element a found := by
  unfold found?
  constructor
  · intro h
    -- the element itself, or a sub-attribute of it
    cases hsub : sub? q top with
    | none =>
      obtain ⟨hpath, hsimple⟩ := sub?_eq_none_iff.mp hsub
      simp only [hsub, Option.some.injEq, Prod.mk.injEq] at h
      obtain ⟨rfl, rfl⟩ := h
      exact .itself element hpath hsimple
    | some sub =>
      simp only [hsub, Option.bind_eq_bind, Option.bind_eq_some_iff, Option.some.injEq,
        Prod.mk.injEq] at h
      obtain ⟨fields, hfields, found, hget, subs, hsubs, d, hfind, rfl, rfl⟩ := h
      obtain rfl := Value.eq_complex_of_complex? hfields
      exact .sub ((sub?_eq_some_iff.mp hsub).imp_right fun h => ⟨h.1, h.2.2⟩) hsubs hfind hget
  · intro h
    cases h with
    | itself _ hpath hsimple => rw [sub?_eq_none_iff.mpr ⟨hpath, hsimple⟩]
    | @sub sub subs d fields _ hpath hsubs hfind hget =>
      rw [sub?_of_subs? hpath hsubs]
      simp [Value.complex?, hget, hsubs, hfind]

/-- The key of a resource, step by step: the attribute, its value, the element that counts, and what
    is compared of it. -/
theorem key?_eq : s.key? schema r =
    (schema.resolve? s.attr).bind fun q => (schema.attribute? q.parent).bind fun top =>
      ((r.getAt? (.ofQualified q.parent) .null).filter Value.isPresent).bind fun value =>
        (value.lead?).bind fun element => (found? q top element).bind fun (found, a) =>
          if found.isPresent then some (a.comparable found) else none := by
  unfold key?
  refine Option.bind_congr fun q _ => Option.bind_congr fun top _ =>
    Option.bind_congr fun value _ => ?_
  -- what is done with an element does not depend on how it was come by
  have hfound : ∀ element, (match sub? q top with
      | none => if element.isPresent then some (top.comparable element) else none
      | some sub => do
        let found ← Record.get? (← element.complex?) sub.text
        let a ← (← top.subs?).find? sub
        if found.isPresent then some ((SubAttribute.lift a).comparable found) else none) =
      (found? q top element).bind fun (found, a) =>
        if found.isPresent then some (a.comparable found) else none := by
    intro element
    unfold found?
    cases sub? q top <;> simp [Option.bind_assoc]
  cases value with
  | list items => exact Option.bind_congr fun element _ => hfound element
  | null => exact hfound .null
  | boolean b => exact hfound (.boolean b)
  | integer n => exact hfound (.integer n)
  | decimal d => exact hfound (.decimal d)
  | string s => exact hfound (.string s)
  | dateTime t => exact hfound (.dateTime t)
  | complex fields => exact hfound (.complex fields)

/-- The key that the sorter computes is the one that the resource has. -/
theorem key?_eq_some_iff : s.key? schema r = some key ↔ s.HasKey schema r key := by
  simp only [key?_eq, Option.bind_eq_some_iff, Option.filter_eq_some_iff, Value.lead?_eq_some_iff]
  constructor
  · rintro ⟨q, hresolve, top, htop, value, ⟨hvalue, hpresent⟩, element, hleads, ⟨found, a⟩,
      hfinds, hkey⟩
    obtain ⟨hfound, hkey⟩ := Option.ite_none_right_eq_some.mp hkey
    obtain rfl := Option.some.inj hkey
    exact .intro hresolve htop hvalue hpresent hleads (found?_eq_some_iff.mp hfinds) hfound
  · rintro ⟨hresolve, htop, hvalue, hpresent, hleads, hfinds, hfound⟩
    exact ⟨_, hresolve, _, htop, _, ⟨hvalue, hpresent⟩, _, hleads, ⟨_, _⟩,
      found?_eq_some_iff.mpr hfinds, if_pos hfound⟩

/-- What is found in a value is a value of the attribute that is compared. -/
theorem Finds.compared? (h : Finds q top element a found)
    (hresolve : schema.resolve? s.attr = some q) (htop : schema.attribute? q.parent = some top) :
    s.compared? schema = some a := by
  unfold Sorter.compared?
  simp only [hresolve, htop, Option.bind_eq_bind, Option.bind_some]
  cases h with
  | itself _ hpath hsimple => rw [sub?_eq_none_iff.mpr ⟨hpath, hsimple⟩]
  | @sub sub subs d fields _ hpath hsubs hfind hget =>
    rw [sub?_of_subs? hpath hsubs]
    simp [hsubs, hfind]

/-- What the attribute of the sorter leads to passes the check of the attribute. -/
def Passes (s : Sorter) (schema : Schema) (r : Record) : Prop :=
  ∀ q ∈ schema.resolve? s.attr, ∀ top ∈ schema.attribute? q.parent,
    ∀ value ∈ r.getAt? (.ofQualified q.parent) .null, (top.validate value).hasErrors = false

/-- What is found in a value that passes the check is compared as a value of the type that is
    declared. -/
theorem Finds.keys {value : Value} (h : Finds q top element a found)
    (hvalid : (top.validate value).hasErrors = false) (hleads : value.Leads element)
    (hpresent : found.isPresent = true) :
    a.type.Keys ((sub? q top).isSome && a.multiValued) (a.comparable found) := by
  -- the elements of a value that passes are values of the declared kind
  have htakes : element = .null ∨ top.kind.Takes element :=
    Attribute.takes_of_mem_elements (Attribute.takes_of_validate hvalid) hleads.mem_elements
  have hfound : found ≠ .null := fun hnull => by simp [hnull, Value.isPresent] at hpresent
  cases h with
  | itself _ hpath hsimple =>
    rw [sub?_eq_none_iff.mpr ⟨hpath, hsimple⟩]
    show top.type.Compares (top.comparable element)
    cases hkind : top.kind with
    | complex subs => simp [Attribute.isComplex, hkind] at hsimple
    | simple k =>
      rw [hkind] at htakes
      exact Attribute.compares_value hkind (htakes.resolve_left hfound)
  | @sub sub subs d fields _ hpath hsubs hfind hget =>
    have hfields : subs.Takes fields := by
      rw [Attribute.kind_of_subs? hsubs] at htakes
      -- the element is not missing, for something was found in it
      obtain ⟨fields', hfields, htakes⟩ := htakes.resolve_left (by simp)
      rwa [Value.complex.inj hfields]
    obtain ⟨hd, hname⟩ := AttributeSet.find?_eq_some hfind
    have hform : d.HasForm d.kind.Takes found := by
      refine hfields d hd found ?_
      rw [Option.mem_def, Record.get?_congr hname]
      exact hget
    rw [sub?_of_subs? hpath hsubs]
    show d.lift.type.Keys (true && d.multiValued) (d.lift.comparable found)
    have hform := hform.resolve_left hfound
    -- a multi-valued sub-attribute has a list as its key, and one list is like another
    cases hmany : d.multiValued with
    | true =>
      rw [if_pos hmany] at hform
      obtain ⟨items, rfl, -⟩ := hform
      exact ⟨items, rfl⟩
    | false =>
      rw [if_neg (by simp [hmany])] at hform
      exact Attribute.compares_value (a := d.lift) rfl hform

/-- The keys of two resources have an order. -/
theorem HasKey.sortsWith {r' : Record} {key' : Value} (h : s.HasKey schema r key)
    (h' : s.HasKey schema r' key') (hpasses : s.Passes schema r) (hpasses' : s.Passes schema r')
    (hdecimal : ∀ a ∈ s.compared? schema, a.type ≠ .decimal) : key.SortsWith key' := by
  obtain @⟨q, top, a, value, element, found, hresolve, htop, hvalue, -, hleads, hfinds, hfound⟩ := h
  obtain @⟨q', top', a', value', element', found', hresolve', htop', hvalue', -, hleads', hfinds',
    hfound'⟩ := h'
  -- both are keys by the same attribute
  obtain rfl := Option.some.inj (hresolve.symm.trans hresolve')
  obtain rfl := Option.some.inj (htop.symm.trans htop')
  have ha := hfinds.compared? hresolve htop
  obtain rfl := Option.some.inj (ha.symm.trans (hfinds'.compared? hresolve htop))
  have hkeys := hfinds.keys (hpasses q hresolve top htop value hvalue) hleads hfound
  have hkeys' := hfinds'.keys (hpasses' q hresolve top htop value' hvalue') hleads' hfound'
  exact hkeys.sortsWith hkeys' (hdecimal a ha)

end

/-! ## The order of resources -/

/-- Keys in ascending order, a missing one last. -/
inductive KeyLe : Option Value → Option Value → Prop
  | missing (key : Option Value) : KeyLe key none
  | found {key key' : Value} (h : key.AtMost key') : KeyLe (some key) (some key')

/-- The comparison of two keys, turned around for descending order. -/
def compareIn (order : SortOrder) (key key' : Option Value) : Ordering :=
  order.apply (compareKeys key key')

/-- Keys in the order of the direction. -/
def InOrder (order : SortOrder) (key key' : Option Value) : Prop :=
  match order with
  | .ascending => KeyLe key key'
  | .descending => KeyLe key' key

/-- The keys have an order, as far as they are there. -/
def Sortable (key key' : Option Value) : Prop := ∀ v ∈ key, ∀ v' ∈ key', v.SortsWith v'

section

variable {key key' key'' : Option Value} {order : SortOrder}

/-- The order of keys is transitive. -/
theorem KeyLe.trans (h : KeyLe key key') (h' : KeyLe key' key'') : KeyLe key key'' := by
  cases h' with
  | missing => exact .missing key
  | found h' =>
    cases h with
    | found h => exact .found (h.trans h')

/-- And so it is in either direction. -/
theorem InOrder.trans (h : InOrder order key key') (h' : InOrder order key' key'') :
    InOrder order key key'' := by
  cases order with
  | ascending => exact KeyLe.trans h h'
  | descending => exact KeyLe.trans h' h

/-- Comparing two keys the other way round has the opposite result. -/
theorem Sortable.compareKeys_swap (h : Sortable key key') :
    compareKeys key' key = (compareKeys key key').swap := by
  cases key with
  | none => cases key' <;> rfl
  | some v =>
    cases key' with
    | none => rfl
    | some v' => exact (h v rfl v' rfl).compare_swap

/-- A key does not compare as greater just if it is in order. -/
theorem Sortable.isLE_compareKeys_iff (h : Sortable key key') :
    (compareKeys key key').isLE = true ↔ KeyLe key key' := by
  cases key' with
  | none => exact iff_of_true (by cases key <;> rfl) (.missing key)
  | some v' =>
    cases key with
    | none =>
      -- a missing key is greater than any other
      refine iff_of_false (by simp [compareKeys]) fun hle => ?_
      cases hle
    | some v =>
      refine (h v rfl v' rfl).isLE_compare_iff.trans ⟨.found, fun hle => ?_⟩
      cases hle with
      | found hle => exact hle

/-- What does not compare as greater is in order, in either direction. -/
theorem Sortable.isLE_compareIn_iff (h : Sortable key key') (h' : Sortable key' key) :
    (compareIn order key key').isLE = true ↔ InOrder order key key' := by
  cases order with
  | ascending => exact h.isLE_compareKeys_iff
  | descending =>
    show (compareKeys key key').swap.isLE = true ↔ KeyLe key' key
    rw [← h.compareKeys_swap, h'.isLE_compareKeys_iff]

end

end Sorter

/-! ## Sorting by an order of the members -/

/-- The comparison is a total preorder on the members of a list: the other way round it has the
    opposite result, and not being greater is transitive. -/
structure TotalPreorderOn {α : Type} (cmp : α → α → Ordering) (list : List α) : Prop where
  swap : ∀ a ∈ list, ∀ b ∈ list, cmp b a = (cmp a b).swap
  trans : ∀ a ∈ list, ∀ b ∈ list, ∀ c ∈ list, (cmp a b).isLE = true → (cmp b c).isLE = true →
    (cmp a c).isLE = true

namespace TotalPreorderOn

variable {α : Type} {cmp : α → α → Ordering} {list : List α}

/-- A list is sorted as the list of its members is. -/
theorem mergeSort_eq_map_attach : list.mergeSort (fun a b => (cmp a b).isLE) =
    (list.attach.mergeSort fun a b => (cmp a.1 b.1).isLE).map Subtype.val := by
  -- forgetting that they are members commutes with sorting, for it keeps the comparison
  have hattach := List.map_mergeSort (r := fun a b : { a // a ∈ list } => (cmp a.1 b.1).isLE)
    (s := fun a b => (cmp a b).isLE) (f := Subtype.val) (l := list.attach) fun _ _ _ _ => rfl
  rw [hattach, List.attach_map_subtype_val]

variable (h : TotalPreorderOn cmp list)
include h

/-- Of two members one is not greater than the other. -/
theorem total (a b : { a // a ∈ list }) :
    ((cmp a.1 b.1).isLE || (cmp b.1 a.1).isLE) = true := by
  rw [h.swap a.1 a.2 b.1 b.2]
  cases cmp a.1 b.1 <;> rfl

/-- The sorted list is in order. -/
theorem pairwise_mergeSort :
    (list.mergeSort fun a b => (cmp a b).isLE).Pairwise fun a b => (cmp a b).isLE = true := by
  rw [mergeSort_eq_map_attach]
  refine List.pairwise_map.mpr (List.pairwise_mergeSort (fun a b c => ?_) h.total list.attach)
  exact h.trans a.1 a.2 b.1 b.2 c.1 c.2

/-- What is in order already stays as it is. -/
theorem sublist_mergeSort {group : List α} (hgroup : group.Sublist list)
    (horder : group.Pairwise fun a b => (cmp a b).isLE = true) :
    group.Sublist (list.mergeSort fun a b => (cmp a b).isLE) := by
  rw [mergeSort_eq_map_attach]
  -- the group is one of members, too
  rw [← List.attach_map_subtype_val list, List.sublist_map_iff] at hgroup
  obtain ⟨group, hgroup, rfl⟩ := hgroup
  have hmembers := List.pairwise_map.mp horder
  refine (List.sublist_mergeSort (fun a b c => ?_) h.total hmembers hgroup).map Subtype.val
  exact h.trans a.1 a.2 b.1 b.2 c.1 c.2

omit h in
/-- A preorder of keys is one of what has them. -/
theorem of_map {β : Type} {f : β → α} {list : List β} (h : TotalPreorderOn cmp (list.map f)) :
    TotalPreorderOn (fun b b' => cmp (f b) (f b')) list where
  swap _ hb _ hb' := h.swap _ (List.mem_map_of_mem hb) _ (List.mem_map_of_mem hb')
  trans _ hb _ hb' _ hb'' := h.trans _ (List.mem_map_of_mem hb) _ (List.mem_map_of_mem hb') _
    (List.mem_map_of_mem hb'')

end TotalPreorderOn

/-! ## Sorting -/

namespace Sorter

variable {s : Sorter} {schema : Schema} {items : List Record}

/-- The resources are sorted by comparing their keys, which need not be kept beside them. -/
theorem sort_eq_mergeSort : s.sort schema items = items.mergeSort fun r r' =>
    (compareIn s.order (s.key? schema r) (s.key? schema r')).isLE := by
  have hle : (fun a b : Option Value × Record => s.order.apply (compareKeys a.1 b.1) != .gt) =
      fun a b => (compareIn s.order a.1 b.1).isLE := by
    funext a b
    unfold compareIn
    cases s.order.apply (compareKeys a.1 b.1) <;> rfl
  -- giving each resource its key commutes with sorting
  have hkeyed := List.map_mergeSort (l := items) (f := fun r => (s.key? schema r, r))
    (r := fun r r' => (compareIn s.order (s.key? schema r) (s.key? schema r')).isLE)
    (s := fun a b => (compareIn s.order a.1 b.1).isLE) fun _ _ _ _ => rfl
  rw [sort, hle, ← hkeyed, List.map_map]
  exact List.map_id _

/-- Keys that all have an order with each other are totally preordered. -/
theorem totalPreorderOn_of_sortable {keys : List (Option Value)}
    (h : ∀ key ∈ keys, ∀ key' ∈ keys, Sortable key key') (order : SortOrder) :
    TotalPreorderOn (compareIn order) keys where
  swap key hkey key' hkey' := by
    unfold compareIn
    rw [(h key hkey key' hkey').compareKeys_swap]
    cases order <;> rfl
  trans key hkey key' hkey' key'' hkey'' hle hle' := by
    have hiff : ∀ k ∈ keys, ∀ k' ∈ keys,
        ((compareIn order k k').isLE = true ↔ InOrder order k k') := fun k hk k' hk' =>
      (h k hk k' hk').isLE_compareIn_iff (h k' hk' k hk)
    exact (hiff key hkey key'' hkey'').mpr
      (((hiff key hkey key' hkey').mp hle).trans ((hiff key' hkey' key'' hkey'').mp hle'))

/-- The keys of resources that pass the check have an order. -/
theorem sortable_of_passes (hpasses : ∀ r ∈ items, s.Passes schema r)
    (hdecimal : ∀ a ∈ s.compared? schema, a.type ≠ .decimal) {r r' : Record} (hr : r ∈ items)
    (hr' : r' ∈ items) : Sortable (s.key? schema r) (s.key? schema r') := by
  -- keys that are missing have an order anyway
  intro key hkey key' hkey'
  exact (key?_eq_some_iff.mp hkey).sortsWith (key?_eq_some_iff.mp hkey') (hpasses r hr)
    (hpasses r' hr') hdecimal

/-- An attribute that is bound to nothing leaves the resources in their order. -/
theorem sort_of_unresolved (h : schema.resolve? s.attr = none) : s.sort schema items = items := by
  -- without the attribute no resource has a key, and keys that are missing are equal
  have hkey : ∀ r, s.key? schema r = none := by
    intro r
    rw [key?_eq, h, Option.bind_none]
  rw [sort_eq_mergeSort]
  refine List.mergeSort_of_pairwise (List.pairwise_of_forall fun r r' => ?_)
  rw [hkey, hkey]
  cases s.order <;> rfl

/-- Resources whose values pass the check of the attribute, which is not one of decimals, are sorted
    as one expects.  What a resource is sorted by is its key; the order of the keys is a total
    preorder; and sorting by it is stable: it rearranges the resources, puts their keys in order,
    and keeps resources with equal keys in the order in which they were. -/
theorem sort_stable (s : Sorter) (schema : Schema) (items : List Record)
    (hpasses : ∀ r ∈ items, s.Passes schema r)
    (hdecimal : ∀ a ∈ s.compared? schema, a.type ≠ .decimal) :
    (∀ r key, s.key? schema r = some key ↔ s.HasKey schema r key) ∧
      TotalPreorderOn (compareIn s.order) (items.map (s.key? schema)) ∧
      (s.sort schema items).Perm items ∧
      (s.sort schema items).Pairwise
        (fun r r' => InOrder s.order (s.key? schema r) (s.key? schema r')) ∧
      (∀ group : List Record, group.Sublist items →
        group.Pairwise (fun r r' => KeyLe (s.key? schema r) (s.key? schema r') ∧
          KeyLe (s.key? schema r') (s.key? schema r)) →
        group.Sublist (s.sort schema items)) ∧
      (schema.resolve? s.attr = none → s.sort schema items = items) := by
  have hsortable := @sortable_of_passes s schema items hpasses hdecimal
  have hkeys : TotalPreorderOn (compareIn s.order) (items.map (s.key? schema)) := by
    -- the keys of the list are those of its resources
    refine totalPreorderOn_of_sortable (fun key hkey key' hkey' => ?_) s.order
    obtain ⟨r, hr, rfl⟩ := List.mem_map.mp hkey
    obtain ⟨r', hr', rfl⟩ := List.mem_map.mp hkey'
    exact hsortable hr hr'
  have hitems := hkeys.of_map
  have hiff : ∀ r ∈ items, ∀ r' ∈ items,
      ((compareIn s.order (s.key? schema r) (s.key? schema r')).isLE = true ↔
        InOrder s.order (s.key? schema r) (s.key? schema r')) := fun r hr r' hr' =>
    (hsortable hr hr').isLE_compareIn_iff (hsortable hr' hr)
  refine ⟨fun r key => key?_eq_some_iff, hkeys, ?_, ?_, fun group hgroup hequal => ?_,
    sort_of_unresolved⟩
  · rw [sort_eq_mergeSort]
    exact List.mergeSort_perm items _
  · rw [sort_eq_mergeSort]
    refine hitems.pairwise_mergeSort.imp_of_mem fun {r r'} hr hr' hle => ?_
    exact (hiff r (List.mem_mergeSort.mp hr) r' (List.mem_mergeSort.mp hr')).mp hle
  · rw [sort_eq_mergeSort]
    refine hitems.sublist_mergeSort hgroup (hequal.imp_of_mem fun {r r'} hr hr' hle => ?_)
    refine (hiff r (hgroup.subset hr) r' (hgroup.subset hr')).mpr ?_
    -- equal keys are in order in either direction
    cases s.order with
    | ascending => exact hle.1
    | descending => exact hle.2

/-- Sorts members of staff by the numbers of their badges, the last one first. -/
def badgeSorter : Sorter where
  attr := .qualified ⟨Schema.staffExtension.uri, ⟨Schema.badges, some Schema.badgeNumber⟩⟩
  order := .descending

/-- A member of staff with a badge. -/
def badged (user number : String) : Record :=
  [ ("userName", .string user),
    ("urn:Staff", .complex [("badges", .list [.complex [("number", .string number)]])]) ]

/-- Members of staff, two of them with one number and one without a badge. -/
def staffMembers : List Record :=
  [badged "kim" "a7", badged "lee" "B2", [("userName", .string "ada")], badged "max" "A7"]

/-- The numbers of the badges have no case, and those with one number stay in their order. -/
theorem sort_stable_badges :
    (∀ r ∈ staffMembers, badgeSorter.Passes Schema.staffSchema r) ∧
      (∀ a ∈ badgeSorter.compared? Schema.staffSchema, a.type ≠ .decimal) ∧
      (badgeSorter.sort Schema.staffSchema staffMembers).Perm staffMembers ∧
      (badgeSorter.sort Schema.staffSchema staffMembers).Pairwise (fun r r' =>
        InOrder .descending (badgeSorter.key? Schema.staffSchema r)
          (badgeSorter.key? Schema.staffSchema r')) ∧
      [badged "kim" "a7", badged "max" "A7"].Sublist
        (badgeSorter.sort Schema.staffSchema staffMembers) := by
  have hpasses : ∀ r ∈ staffMembers, badgeSorter.Passes Schema.staffSchema r := by
    unfold Passes
    decide +kernel
  have hdecimal : ∀ a ∈ badgeSorter.compared? Schema.staffSchema, a.type ≠ .decimal := by
    decide +kernel
  obtain ⟨-, -, hperm, horder, hstable, -⟩ :=
    sort_stable badgeSorter Schema.staffSchema staffMembers hpasses hdecimal
  refine ⟨hpasses, hdecimal, hperm, horder, hstable _ ?_ ?_⟩
  · exact .cons_cons _ (.cons _ (.cons _ (.refl _)))
  · have hkim : badgeSorter.key? Schema.staffSchema (badged "kim" "a7") = some (.string "a7") := rfl
    have hmax : badgeSorter.key? Schema.staffSchema (badged "max" "A7") = some (.string "a7") := rfl
    have hequal : KeyLe (some (.string "a7")) (some (.string "a7")) := .found (.string (by decide))
    simp [hkim, hmax, hequal]

end Sorter

end Scim
