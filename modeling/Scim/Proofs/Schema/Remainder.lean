import Scim.Proofs.Schema.Projection

/-!
  # What a projection leaves

  A projection takes away and adds nothing: each value that is left is the value of a declared
  attribute, as it was, or with some of the sub-attributes of its records and some of the items of
  its list gone (`Attribute.CutTo`, `Schema.CutsTo`).  And it takes away once and for all, for what
  is left would be left again (`project_project`).  What is always returned stays as it is, whatever
  was asked for (`value?_project_of_always`).

  At both levels, attributes in a part and sub-attributes in an element, a projection is the same
  walk over the declared names (`AttributeOf.keepRecord`), with a decision on each value:

    * what was kept is found under its name again (`get?_keepRecord`);
    * so if every decision keeps what it has kept, the walk does (`keepRecord_keepRecord`);
    * the walk keeps some of the attributes, in their order (`cut_keepRecord`).
-/

namespace Scim

/-! ## Cut records -/

/-- A record with values of some of the attributes, under their names and in their order.  `Rest`
    relates a value to what is left of it. -/
def Record.Cut {κ : Type} (attrs : List (AttributeOf κ))
    (Rest : AttributeOf κ → Value → Value → Prop) (fields kept : Record) : Prop :=
  ∃ chosen : List (AttributeOf κ), chosen.Sublist attrs ∧
    List.Forall₂ (fun a entry => entry.1 = a.name.text ∧
      ∃ value, fields.get? a.name.text = some value ∧ Rest a value entry.2) chosen kept

/-- A record with some of the sub-attributes, their values unchanged. -/
def Record.CutBySubs (subs : AttributeSet SimpleKind) (fields kept : Record) : Prop :=
  Record.Cut subs.toList (fun _ value rest => rest = value) fields kept

/-- An item as it was, or with some of its sub-attributes. -/
def Value.ItemCut (subs : AttributeSet SimpleKind) (item rest : Value) : Prop :=
  rest = item ∨ ∃ fields kept, item = .complex fields ∧ rest = .complex kept ∧
    Record.CutBySubs subs fields kept

/-- What may be left of a value of an attribute. -/
inductive Attribute.CutTo (a : Attribute) : Value → Value → Prop
  | whole (value : Value) : CutTo a value value
  | record {subs : AttributeSet SimpleKind} {fields kept : Record} :
      Attribute.subs? a = some subs → Record.CutBySubs subs fields kept →
      CutTo a (.complex fields) (.complex kept)
  /-- Some items are left, in their order. -/
  | items {subs : AttributeSet SimpleKind} {items survivors kept : List Value} :
      Attribute.subs? a = some subs → survivors.Sublist items →
      List.Forall₂ (Value.ItemCut subs) survivors kept → CutTo a (.list items) (.list kept)

namespace AttributeOf

variable {κ : Type} {attrs : AttributeSet κ} {keep : AttributeOf κ → Value → Option Value}
  {fields fields' : Record}

/-- What is kept of the values under declared names. -/
def keepRecord (attrs : List (AttributeOf κ)) (keep : AttributeOf κ → Value → Option Value)
    (fields : Record) : Record :=
  attrs.filterMap fun a =>
    ((fields.get? a.name.text).bind (keep a)).map fun kept => (a.name.text, kept)

/-- No key is kept twice, as no two attributes have one name. -/
theorem distinct_keepRecord (attrs : AttributeSet κ) (keep : AttributeOf κ → Value → Option Value)
    (fields : Record) : Record.Distinct (keepRecord attrs.toList keep fields) := by
  refine Record.distinct_filterMap attrs.distinct fun a _ entry hentry => ?_
  obtain ⟨kept, -, rfl⟩ := Option.map_eq_some_iff.mp hentry
  rfl

/-- What was kept is found under the declared name. -/
theorem get?_keepRecord {a : AttributeOf κ} (ha : a ∈ attrs.toList) (fields : Record) :
    Record.get? (keepRecord attrs.toList keep fields) a.name.text =
      (fields.get? a.name.text).bind (keep a) := by
  refine Option.ext fun kept => ?_
  rw [(distinct_keepRecord attrs keep fields).get?_eq_some_iff, Record.mem_values]
  constructor
  · rintro ⟨entry, hentry, hsame, rfl⟩
    obtain ⟨b, hb, hmade⟩ := List.mem_filterMap.mp hentry
    obtain ⟨kept, hkept, rfl⟩ := Option.map_eq_some_iff.mp hmade
    obtain rfl := attrs.eq_of_sameKey hb ha hsame
    exact hkept
  · intro hkept
    refine ⟨(a.name.text, kept), List.mem_filterMap.mpr ⟨a, ha, ?_⟩, Record.sameKey_iff.mpr rfl, rfl⟩
    rw [hkept, Option.map_some]

/-- What is kept depends only on the values found under declared names. -/
theorem keepRecord_congr
    (h : ∀ a ∈ attrs.toList, fields.get? a.name.text = fields'.get? a.name.text) :
    keepRecord attrs.toList keep fields = keepRecord attrs.toList keep fields' :=
  List.filterMap_congr fun a ha => by rw [h a ha]

/-- If what is kept of a value is kept once more, so is the record. -/
theorem keepRecord_keepRecord
    (h : ∀ a ∈ attrs.toList, ∀ value kept, keep a value = some kept → keep a kept = some kept)
    (fields : Record) :
    keepRecord attrs.toList keep (keepRecord attrs.toList keep fields) =
      keepRecord attrs.toList keep fields := by
  refine List.filterMap_congr fun a ha => ?_
  rw [get?_keepRecord ha]
  cases hkept : (fields.get? a.name.text).bind (keep a) with
  | none => rfl
  | some kept =>
    obtain ⟨value, -, hvalue⟩ := Option.bind_eq_some_iff.mp hkept
    rw [Option.bind_some, h a ha value kept hvalue]

/-- The attributes that have something kept of them are some of the attributes, in their order. -/
theorem cut_keepRecord {Rest : AttributeOf κ → Value → Value → Prop} {attrs : List (AttributeOf κ)}
    (h : ∀ a ∈ attrs, ∀ value kept, keep a value = some kept → Rest a value kept)
    (fields : Record) : Record.Cut attrs Rest fields (keepRecord attrs keep fields) := by
  -- one attribute at a time, which is chosen if something of it is kept
  induction attrs with
  | nil => exact ⟨[], .slnil, .nil⟩
  | cons a attrs ih =>
    obtain ⟨ha, hattrs⟩ := List.forall_mem_cons.mp h
    obtain ⟨chosen, hsublist, hchosen⟩ := ih hattrs
    unfold keepRecord
    rw [List.filterMap_cons]
    cases hkept : (fields.get? a.name.text).bind (keep a) with
    | none => exact ⟨chosen, hsublist.cons a, hchosen⟩
    | some kept =>
      obtain ⟨value, hget, hvalue⟩ := Option.bind_eq_some_iff.mp hkept
      exact ⟨a :: chosen, hsublist.cons_cons a,
        .cons ⟨rfl, value, hget, ha value kept hvalue⟩ hchosen⟩

end AttributeOf

namespace Schema

open AttributeOf (keepRecord)

variable {s : Schema} {p : Part} {config : Presence} {q : Qualified} {a : Attribute}
  {subs : AttributeSet SimpleKind} {value kept : Value}

/-! ## Elements -/

/-- Whether the value of a sub-attribute is kept. -/
def keepSub (config : Presence) (q : Qualified) (sub : SubAttribute) (value : Value) :
    Option Value :=
  if returns config sub.toCharacteristics (q.child sub.name) then some value else none

/-- The projection of an element is this walk over its sub-attributes. -/
theorem projectElement_eq (config : Presence) (q : Qualified) (subs : List SubAttribute)
    (fields : Record) :
    projectElement config q subs fields = keepRecord subs (keepSub config q) fields := by
  refine List.filterMap_congr fun sub _ => ?_
  unfold keepSub
  cases returns config sub.toCharacteristics (q.child sub.name) with
  | true => cases Record.get? fields sub.name.text <;> rfl
  | false => cases Record.get? fields sub.name.text <;> rfl

/-- The value of a sub-attribute is kept as it is, and would be kept again. -/
theorem eq_of_keepSub {sub : SubAttribute} (h : keepSub config q sub value = some kept) :
    kept = value ∧ keepSub config q sub kept = some kept := by
  unfold keepSub at h ⊢
  split at h
  · rename_i hreturns
    obtain rfl := Option.some.inj h
    exact ⟨rfl, if_pos hreturns⟩
  · cases h

/-- The projection of an element is its own projection. -/
theorem projectElement_projectElement (config : Presence) (q : Qualified)
    (subs : AttributeSet SimpleKind) (fields : Record) :
    projectElement config q subs.toList (projectElement config q subs.toList fields) =
      projectElement config q subs.toList fields := by
  have hkeep : ∀ sub ∈ subs.toList, ∀ value kept, keepSub config q sub value = some kept →
      keepSub config q sub kept = some kept :=
    fun _ _ _ _ h => (eq_of_keepSub h).2
  simp only [projectElement_eq]
  exact AttributeOf.keepRecord_keepRecord hkeep fields

/-- It has some of the sub-attributes, unchanged. -/
theorem cut_projectElement (config : Presence) (q : Qualified) (subs : AttributeSet SimpleKind)
    (fields : Record) : Record.CutBySubs subs fields (projectElement config q subs.toList fields) := by
  rw [projectElement_eq]
  exact AttributeOf.cut_keepRecord (fun _ _ _ _ h => (eq_of_keepSub h).1) fields

/-! ## Lists of elements -/

/-- What is left of one item. -/
def projectItem (config : Presence) (q : Qualified) (subs : List SubAttribute) (item : Value) :
    Value :=
  match item with
  | .complex fields => .complex (projectElement config q subs fields)
  | other => other

/-- Of a list, the items are left that are still present. -/
theorem projectElements_list (config : Presence) (q : Qualified) (subs : List SubAttribute)
    (items : List Value) :
    projectElements config q subs (.list items) =
      if ((items.map (projectItem config q subs)).filter Value.isPresent).isEmpty then none
      else some (.list ((items.map (projectItem config q subs)).filter Value.isPresent)) := rfl

/-- What is left of an item is left again. -/
theorem projectItem_projectItem (config : Presence) (q : Qualified)
    (subs : AttributeSet SimpleKind) (item : Value) :
    projectItem config q subs.toList (projectItem config q subs.toList item) =
      projectItem config q subs.toList item := by
  cases item with
  | complex fields => exact congrArg Value.complex (projectElement_projectElement config q subs fields)
  | _ => rfl

/-- An item is left as it was, or cut. -/
theorem cut_projectItem (config : Presence) (q : Qualified) (subs : AttributeSet SimpleKind)
    (item : Value) : item.ItemCut subs (projectItem config q subs.toList item) := by
  cases item with
  | complex fields => exact .inr ⟨fields, _, rfl, rfl, cut_projectElement config q subs fields⟩
  | _ => exact .inl rfl

/-- Items that are present when they are cut are kept, and cut. -/
theorem keptItems_eq (config : Presence) (q : Qualified) (subs : List SubAttribute)
    (items : List Value) :
    (items.map (projectItem config q subs)).filter Value.isPresent =
      (items.filter fun item => (projectItem config q subs item).isPresent).map
        (projectItem config q subs) :=
  List.filter_map

/-- The items that are kept are kept again. -/
theorem keptItems_keptItems (config : Presence) (q : Qualified) (subs : AttributeSet SimpleKind)
    (items : List Value) :
    let kept := (items.map (projectItem config q subs.toList)).filter Value.isPresent
    (kept.map (projectItem config q subs.toList)).filter Value.isPresent = kept := by
  intro kept
  -- every item that is kept is what is left of one, and is present
  have hfixed : kept.map (projectItem config q subs.toList) = kept := by
    have hitems : ∀ item ∈ kept, projectItem config q subs.toList item = id item := by
      intro item hitem
      obtain ⟨before, -, rfl⟩ := List.mem_map.mp (List.mem_of_mem_filter hitem)
      exact projectItem_projectItem config q subs before
    rw [List.map_congr_left hitems, List.map_id]
  rw [hfixed]
  exact List.filter_eq_self.mpr fun item hitem => (List.mem_filter.mp hitem).2

/-! ## Attributes -/

/-- What is left of the elements of a value is left again. -/
theorem projectElements_again (h : projectElements config q subs.toList value = some kept) :
    projectElements config q subs.toList kept = some kept := by
  cases value with
  | complex fields =>
    simp only [projectElements, Option.ite_none_left_eq_some, Option.some.injEq] at h
    obtain ⟨hne, rfl⟩ := h
    simp only [projectElements, projectElement_projectElement, if_neg hne]
  | list items =>
    simp only [projectElements_list, Option.ite_none_left_eq_some, Option.some.injEq] at h
    obtain ⟨hne, rfl⟩ := h
    rw [projectElements_list, keptItems_keptItems, if_neg hne]
  | _ =>
    obtain rfl := Option.some.inj h
    rfl

/-- It is cut from the value. -/
theorem cutTo_projectElements (hsubs : Attribute.subs? a = some subs)
    (h : projectElements config q subs.toList value = some kept) : Attribute.CutTo a value kept := by
  cases value with
  | complex fields =>
    simp only [projectElements, Option.ite_none_left_eq_some, Option.some.injEq] at h
    obtain ⟨-, rfl⟩ := h
    exact .record hsubs (cut_projectElement config q subs fields)
  | list items =>
    simp only [projectElements_list, Option.ite_none_left_eq_some, Option.some.injEq] at h
    obtain ⟨-, rfl⟩ := h
    have hsurvivors :
        (items.filter fun item => (projectItem config q subs.toList item).isPresent).Sublist items :=
      List.filter_sublist
    rw [keptItems_eq]
    refine .items hsubs hsurvivors ?_
    exact List.forall₂_map_right_iff.mpr
      (List.forall₂_same.mpr fun item _ => cut_projectItem config q subs item)
  | _ =>
    obtain rfl := Option.some.inj h
    exact .whole _

/-- What is kept of a value would be kept again, and is the value or cut from it. -/
theorem projectAttribute_again (h : projectAttribute config a q value = some kept) :
    projectAttribute config a q kept = some kept ∧ Attribute.CutTo a value kept := by
  unfold projectAttribute at h ⊢
  split at h
  · cases h
  rename_i hreturns
  rw [if_neg hreturns]
  split at h
  · -- an attribute that is always returned is not looked into
    rename_i halways
    obtain rfl := Option.some.inj h
    exact ⟨if_pos halways, .whole value⟩
  rename_i hnot
  rw [if_neg hnot]
  cases hsubs : Attribute.subs? a with
  | none =>
    rw [hsubs] at h
    obtain rfl := Option.some.inj h
    exact ⟨rfl, .whole value⟩
  | some subs =>
    rw [hsubs] at h
    exact ⟨projectElements_again h, cutTo_projectElements hsubs h⟩

/-- A value that is always returned is kept whole. -/
theorem projectAttribute_of_always (h : a.returned = .always) (config : Presence) (q : Qualified)
    (value : Value) : projectAttribute config a q value = some value := by
  simp [projectAttribute, returns, h]

/-! ## Parts -/

/-- What is kept of a value of an attribute of a part. -/
def Part.keep (config : Presence) (p : Part) (a : Attribute) (value : Value) : Option Value :=
  projectAttribute config a (Qualified.ofAttr p.uri a.name) value

/-- The projection of a part is the same walk over its attributes. -/
theorem Part.project_eq (config : Presence) (p : Part) (fields : Record) :
    p.project config fields = keepRecord p.attributes.toList (p.keep config) fields := by
  refine List.filterMap_congr fun a _ => ?_
  cases Record.get? fields a.name.text with
  | none => rfl
  | some value =>
    show (projectAttribute config a _ value).bind _ = Option.map _ (p.keep config a value)
    unfold Part.keep
    cases projectAttribute config a (Qualified.ofAttr p.uri a.name) value <;> rfl

/-- No key stands twice in the projection of a part. -/
theorem Part.distinct_project (config : Presence) (p : Part) (fields : Record) :
    (p.project config fields).Distinct := by
  rw [project_eq]
  exact AttributeOf.distinct_keepRecord p.attributes (p.keep config) fields

/-- The projection of a part is its own projection. -/
theorem Part.project_project (config : Presence) (p : Part) (fields : Record) :
    p.project config (p.project config fields) = p.project config fields := by
  have hkeep : ∀ a ∈ p.attributes.toList, ∀ value kept, p.keep config a value = some kept →
      p.keep config a kept = some kept :=
    fun _ _ _ _ h => (projectAttribute_again h).1
  simp only [project_eq]
  exact AttributeOf.keepRecord_keepRecord hkeep fields

/-- It has some of the attributes, each with what is left of its value. -/
theorem Part.cut_project (config : Presence) (p : Part) (fields : Record) :
    Record.Cut p.attributes.toList Attribute.CutTo fields (p.project config fields) := by
  rw [project_eq]
  exact AttributeOf.cut_keepRecord (fun _ _ _ _ h => (projectAttribute_again h).2) fields

/-- In a part, the value of an attribute that is always returned is found again. -/
theorem Part.get?_project_of_always (config : Presence) (p : Part) {fields : Record}
    (ha : a ∈ p.attributes.toList) (halways : a.returned = .always)
    (hget : Record.get? fields a.name.text = some value) :
    Record.get? (p.project config fields) a.name.text = some value := by
  rw [project_eq, AttributeOf.get?_keepRecord ha, hget]
  exact projectAttribute_of_always halways config _ value

/-! ## Resources -/

/-- What may be left of an extension: an entry under its URI, with some of its attributes. -/
def Part.CutsTo (p : Part) (r : Record) (entry : String × Value) : Prop :=
  entry.1 = p.uri.text ∧ ∃ fields kept, r.get? p.uri.text = some (.complex fields) ∧
    entry.2 = .complex kept ∧ kept ≠ [] ∧
      Record.Cut p.attributes.toList Attribute.CutTo fields kept

/-- What may be left of a resource: some attributes of the base, and then some extensions. -/
def CutsTo (s : Schema) (r rest : Record) : Prop :=
  ∃ base extensions, rest = base ++ extensions ∧
    Record.Cut s.attributes.toList Attribute.CutTo r base ∧
    ∃ chosen : List Part, chosen.Sublist s.extensionParts ∧
      List.Forall₂ (fun p entry => p.CutsTo r entry) chosen extensions

variable {r : Record}

/-- The extensions that have something left are some of the extensions, in their order. -/
theorem cut_extensions (config : Presence) (r : Record) (parts : List Part) :
    ∃ chosen : List Part, chosen.Sublist parts ∧ List.Forall₂ (fun p entry => p.CutsTo r entry) chosen
      (parts.flatMap fun p => p.projectExtension config r) := by
  -- the walk over the extensions is that over attributes again
  induction parts with
  | nil => exact ⟨[], .slnil, .nil⟩
  | cons p parts ih =>
    obtain ⟨chosen, hsublist, hchosen⟩ := ih
    rw [List.flatMap_cons]
    rcases p.projectExtension_cases config r with ⟨hnil, -⟩ | ⟨fields, hget, hkept, hsingle⟩
    · rw [hnil]
      exact ⟨chosen, hsublist.cons p, hchosen⟩
    · rw [hsingle]
      exact ⟨p :: chosen, hsublist.cons_cons p,
        .cons ⟨rfl, fields, _, hget, rfl, hkept, p.cut_project config fields⟩ hchosen⟩

/-- What a projection leaves of a resource is cut from it. -/
theorem cutsTo_project (s : Schema) (r : Record) (config : Presence) :
    s.CutsTo r (s.project r config) :=
  ⟨_, _, rfl, s.basePart.cut_project config r, cut_extensions config r s.extensionParts⟩

/-- An attribute of the base is found where the projection of the base has it. -/
theorem get?_project_name (s : Schema) (r : Record) (config : Presence) (name : Name) :
    (s.project r config).get? name.text = (s.basePart.project config r).get? name.text :=
  (s.assembles_project r config).get?_name (s.basePart.distinct_project config r) name

/-- An extension is found where something of it is left. -/
theorem get?_project_uri (hp : p ∈ s.extensionParts) (r : Record) (config : Presence) :
    (s.project r config).get? p.uri.text = some value ↔
      ∃ fields, r.get? p.uri.text = some (.complex fields) ∧
        p.project config fields ≠ [] ∧ value = .complex (p.project config fields) := by
  refine ((s.assembles_project r config).get?_uri_eq_some
    (s.basePart.distinct_project config r) hp).trans ?_
  rw [Part.mem_projectExtension_iff]
  simp only [Prod.mk.injEq, true_and]

/-- What is left of an extension is left again. -/
theorem projectExtension_project (hp : p ∈ s.extensionParts) (r : Record) (config : Presence) :
    p.projectExtension config (s.project r config) = p.projectExtension config r := by
  rcases p.projectExtension_cases config r with ⟨hnil, hnone⟩ | ⟨fields, hget, hkept, hsingle⟩
  · rcases p.projectExtension_cases config (s.project r config) with ⟨hnil', -⟩ | ⟨_, hget', -, -⟩
    · rw [hnil, hnil']
    · -- nothing was left, so there is no entry
      obtain ⟨fields, hget, hkept, -⟩ := (get?_project_uri hp r config).mp hget'
      exact absurd (hnone fields hget) hkept
  · have hagain := Part.project_project config p fields
    have hget' : (s.project r config).get? p.uri.text = some (.complex (p.project config fields)) :=
      (get?_project_uri hp r config).mpr ⟨fields, hget, hkept, rfl⟩
    rcases p.projectExtension_cases config (s.project r config) with
      ⟨-, hnone⟩ | ⟨fields', hget'', -, hsingle'⟩
    · exact absurd (hagain.symm.trans (hnone _ hget')) hkept
    · obtain rfl := Value.complex.inj (Option.some.inj (hget'.symm.trans hget''))
      rw [hsingle, hsingle', hagain]

/-- A projection is its own projection. -/
theorem project_project (s : Schema) (r : Record) (config : Presence) :
    s.project (s.project r config) config = s.project r config := by
  -- only declared names matter, and under these the projection of the base stands
  have hbase : s.basePart.project config (s.project r config) = s.basePart.project config r := by
    rw [← s.basePart.project_project config r, Part.project_eq, Part.project_eq]
    refine AttributeOf.keepRecord_congr fun a _ => ?_
    rw [get?_project_name, Part.project_eq]
  have hextensions : ∀ p ∈ s.extensionParts,
      p.projectExtension config (s.project r config) = p.projectExtension config r :=
    fun p hp => projectExtension_project hp r config
  calc s.project (s.project r config) config
    _ = s.basePart.project config (s.project r config) ++
          s.extensionParts.flatMap fun p => p.projectExtension config (s.project r config) := rfl
    _ = s.basePart.project config r ++
          s.extensionParts.flatMap fun p => p.projectExtension config r := by
      rw [hbase, List.flatMap_congr hextensions]
    _ = s.project r config := rfl

/-- The value of an attribute that is always returned is left as it is. -/
theorem value?_project_of_always (hp : p ∈ s.parts) (ha : a ∈ p.attributes.toList)
    (halways : a.returned = .always) (hvalue : p.value? r a = some value) (config : Presence) :
    p.value? (s.project r config) a = some value := by
  obtain ⟨fields, hdata, hget⟩ := Part.value?_eq_some.mp hvalue
  have hkept := p.get?_project_of_always config ha halways hget
  rcases List.mem_cons.mp hp with rfl | hext
  · obtain rfl : r = fields := by simpa [data_basePart] using hdata
    rw [Part.value?_of_data (data_basePart s _), get?_project_name, hkept]
  · rcases (data_eq_ok_iff hext).mp hdata with hentry | ⟨-, rfl⟩
    · -- the extension is left, for it has the value
      have hne : p.project config fields ≠ [] := by
        intro hnil
        simp [hnil, Record.get?] at hkept
      have hleft := (get?_project_uri hext r config).mpr ⟨fields, hentry, hne, rfl⟩
      rw [Part.value?_of_data ((data_eq_ok_iff hext).mpr (.inl hleft)), hkept]
    · simp [Record.get?] at hget

/-- A projection takes away and adds nothing, does so once and for all, and leaves what is always
    returned. -/
theorem project_leaves (s : Schema) (r : Record) (config : Presence) :
    s.project (s.project r config) config = s.project r config ∧
      s.CutsTo r (s.project r config) ∧
      ∀ p ∈ s.parts, ∀ a ∈ p.attributes.toList, a.returned = .always →
        ∀ value ∈ p.value? r a, p.value? (s.project r config) a = some value :=
  ⟨s.project_project r config, s.cutsTo_project r config,
    fun _ hp _ ha halways _ hvalue => value?_project_of_always hp ha halways hvalue config⟩

/-- A list that excludes the vault. -/
def withoutVault : Presence :=
  Presence.response.excluding [.plain ⟨(vault .always).name, none⟩]

/-- A vault that is always returned is left with its pin, for all that it is excluded. -/
theorem project_leaves_vault :
    withoutVault.allowed (.ofAttr (vaultSchema .always).uri (vault .always).name) = false ∧
      ∃ value, (vaultSchema .always).basePart.value? vaultData (vault .always) = some value ∧
        (vaultSchema .always).basePart.value?
          ((vaultSchema .always).project vaultData withoutVault) (vault .always) = some value := by
  have hsome : ((vaultSchema .always).basePart.value? vaultData (vault .always)).isSome = true := by
    decide +kernel
  have hmem : vault .always ∈ (vaultSchema .always).basePart.attributes.toList :=
    List.mem_append_right _ List.mem_cons_self
  obtain ⟨value, hvalue⟩ := Option.isSome_iff_exists.mp hsome
  have hleaves := (project_leaves (vaultSchema .always) vaultData withoutVault).2.2
  exact ⟨by decide +kernel, value, hvalue,
    hleaves _ List.mem_cons_self _ hmem rfl value hvalue⟩

end Schema

end Scim
