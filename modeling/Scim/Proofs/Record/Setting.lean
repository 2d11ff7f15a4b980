import Scim.Proofs.Record.Nesting

/-!
  # Sets that fail

  What stands in the way of a set is an error, and mostly found before anything is written.  Only the
  elements of a list are looked at one by one, while values are dealt out to them: an element that
  can not take its value is found when its turn comes (`deal_blocked`, `deal_failed`), and by then
  the elements before it have theirs.

  So a set that fails may leave its traces, and `failed_and_changed_iff` says exactly when.
-/

namespace Scim

/-- Whether a list element can take a sub-attribute. -/
def Value.takes : Value → Bool
  | .complex _ | .null => true
  | _ => false

namespace Record

variable {r r' fields : Record} {attr sub : Name} {item value due blocking : Value} {e : Error}
  {conflict : String → Error} {index : Nat} {items before after values gave rest : List Value}

/-! ## Dealing out, one by one -/

/-- A list element with a sub-attribute written to it. -/
def give (sub : Name) (item value : Value) : Value :=
  match item with
  | .complex fields => .complex (insert fields sub.text value)
  | _ => element sub value

/-- An element that can take its value gets it, and the dealing goes on. -/
theorem deal_of_takes (h : item.takes = true) :
    deal sub conflict index (item :: items) (value :: values) =
      (give sub item value :: (deal sub conflict (index + 1) items values).1,
        (deal sub conflict (index + 1) items values).2) := by
  cases item with
  | null => rfl
  | complex fields => rfl
  | _ => simp [Value.takes] at h

/-- At one that can not it ends, with all elements from there as they were. -/
theorem deal_of_blocks (h : blocking.takes = false) :
    deal sub conflict index (blocking :: after) (due :: rest) =
      (blocking :: after,
        some (conflict s!"element {index} is '{blocking.typeName}', not complex")) := by
  cases blocking with
  | null => simp [Value.takes] at h
  | complex fields => simp [Value.takes] at h
  | _ => rfl

/-- Elements that can take their values do so, up to the first one that can not. -/
theorem deal_blocked (hlength : before.length = gave.length)
    (htakes : ∀ item ∈ before, item.takes = true) (hblocks : blocking.takes = false) :
    deal sub conflict index (before ++ blocking :: after) (gave ++ due :: rest) =
      (List.zipWith (give sub) before gave ++ blocking :: after,
        some (conflict
          s!"element {index + before.length} is '{blocking.typeName}', not complex")) := by
  -- on the elements before the one in the way, each of which takes its value
  induction before generalizing gave index with
  | nil =>
    obtain rfl : gave = [] := List.length_eq_zero_iff.mp hlength.symm
    exact deal_of_blocks hblocks
  | cons item before ih =>
    cases gave with
    | nil => simp at hlength
    | cons value gave =>
      obtain ⟨hitem, hrest⟩ := List.forall_mem_cons.mp htakes
      have hturn : index + 1 + before.length = index + (item :: before).length := by
        rw [List.length_cons]
        omega
      rw [List.cons_append, List.cons_append, deal_of_takes hitem,
        ih (by simpa using hlength) hrest, hturn]
      rfl

/-- Dealing out fails only at an element that can not take its value, when all before it could. -/
theorem deal_failed (h : (deal sub conflict index items values).2 = some e) :
    ∃ before blocking after gave due rest,
      items = before ++ blocking :: after ∧ values = gave ++ due :: rest ∧
      before.length = gave.length ∧ (∀ item ∈ before, item.takes = true) ∧
      blocking.takes = false := by
  -- on the elements, up to the first one that can not take its value
  induction items generalizing values index with
  | nil => cases values <;> simp [deal] at h
  | cons item items ih =>
    cases values with
    | nil => simp [deal] at h
    | cons value values =>
      cases htakes : item.takes with
      | false => exact ⟨[], item, items, [], value, values, rfl, rfl, rfl, by simp, htakes⟩
      | true =>
        rw [deal_of_takes htakes] at h
        obtain ⟨before, blocking, after, gave, due, rest, rfl, rfl, hlength, hbefore, hblocks⟩ := ih h
        exact ⟨item :: before, blocking, after, value :: gave, due, rest, rfl, rfl,
          by simp [hlength], List.forall_mem_cons.mpr ⟨htakes, hbefore⟩, hblocks⟩

/-! ## Sets that stop late -/

/-- The record that the keys of the base schema, or of an extension, lead into. -/
def holder? (r : Record) (within : Option SchemaUri) : Option Record :=
  match within with
  | none => some r
  | some uri => (r.get? uri.text).bind Value.complex?

/-- Values are to be dealt out to the elements of a list, and one of these can not take its value;
    those before it can, and change by it. -/
inductive StopsLate (r : Record) : Key → Value → Prop
  | intro {within : Option SchemaUri} {attr sub : Name} {fields : Record}
      {before after gave rest : List Value} {blocking due : Value}
      (leads : r.holder? within = some fields)
      (list : fields.get? attr.text = some (.list (before ++ blocking :: after)))
      (length : before.length = gave.length)
      (takes : ∀ item ∈ before, item.takes = true)
      (blocks : blocking.takes = false)
      (changes : List.zipWith (give sub) before gave ≠ before) :
    StopsLate r (.attr within ⟨attr, some sub⟩) (.list (gave ++ due :: rest))

/-- A set of a sub-attribute that stops late leaves the list with what was dealt out. -/
theorem setSub_of_list (hlist : r.get? attr.text = some (.list items)) :
    r.setSub attr sub (.list values) =
      (r.update attr.text
          (.list (deal sub (.typeConflict (attr.text ++ "." ++ sub.text)) 0 items values).1),
        (deal sub (.typeConflict (attr.text ++ "." ++ sub.text)) 0 items values).2) := by
  simp only [setSub, hlist]

/-- A set of a sub-attribute that fails has changed nothing, or else it has dealt values out. -/
theorem setSub_failed (h : (r.setSub attr sub value).2 = some e) :
    (r.setSub attr sub value).1 = r ∨ ∃ items values,
      r.get? attr.text = some (.list items) ∧ value = .list values := by
  -- only elements that are there already are looked at one by one
  cases hget : r.get? attr.text with
  | none => simp [setSub, hget] at h
  | some old =>
    cases old with
    | null => simp [setSub, hget] at h
    | complex fields => simp [setSub, hget] at h
    | list items =>
      cases value with
      | list values => exact .inr ⟨items, values, rfl, rfl⟩
      | _ => exact .inl (by simp only [setSub, hget])
    | _ => exact .inl (by simp only [setSub, hget])

/-- Beyond its beginnings, a list keeps what it is given to deal out only if nothing changes. -/
theorem update_dealt_eq_self_iff (hlist : r.get? attr.text = some (.list (before ++ after)))
    {dealt : List Value} :
    r.update attr.text (.list (dealt ++ after)) = r ↔ dealt = before := by
  rw [update_eq_self_iff hlist, Value.list.injEq, List.append_left_inj]

/-- A set below a place fails and changes the record there just as it does where the key leads. -/
theorem setAt_of_leads {within : Option SchemaUri} (hleads : r.holder? within = some fields)
    (path : Path) (value : Value) :
    (r.setAt (.attr within path) value).2 = (fields.setPath path value).2 ∧
      ((r.setAt (.attr within path) value).1 = r ↔ (fields.setPath path value).1 = fields) := by
  cases within with
  | none =>
    obtain rfl := Option.some.inj hleads
    exact ⟨rfl, Iff.rfl⟩
  | some uri =>
    obtain ⟨_, hget, hcomplex⟩ := Option.bind_eq_some_iff.mp hleads
    obtain rfl := Value.eq_complex_of_complex? hcomplex
    refine ⟨by simp only [setAt, hget], ?_⟩
    simp only [setAt, hget]
    rw [update_eq_self_iff hget, Value.complex.injEq]

/-- Into an empty record everything can be set. -/
theorem setPath_nil (path : Path) (value : Value) : (setPath [] path value).2 = none := by
  unfold setPath
  split <;> rfl

/-- Where a key leads into no record, one is made, or the set fails and changes nothing. -/
theorem unchanged_of_not_leads {within : Option SchemaUri} {path : Path}
    (hleads : r.holder? within = none) (h : (r.setAt (.attr within path) value).2 = some e) :
    (r.setAt (.attr within path) value).1 = r := by
  cases within with
  | none => simp [holder?] at hleads
  | some uri =>
    unfold setAt at h ⊢
    dsimp only at h ⊢
    split
    case h_1 fields hget => simp [holder?, hget, Value.complex?] at hleads
    case h_2 hget | h_3 hget => simp [hget, setPath_nil] at h
    case h_4 => rfl

/-- A set that fails and changes the data that its key leads into stops late. -/
theorem stopsLate_of_setPath {within : Option SchemaUri} {path : Path}
    (hleads : r.holder? within = some fields) (h : (fields.setPath path value).2 = some e)
    (hchanged : (fields.setPath path value).1 ≠ fields) :
    StopsLate r (.attr within path) value := by
  obtain ⟨attr, sub⟩ := path
  cases sub with
  | none => simp [setPath] at h
  | some sub =>
    rcases setSub_failed h with hsame | ⟨items, values, hlist, rfl⟩
    · exact absurd hsame hchanged
    · change (fields.setSub attr sub (.list values)).2 = some e at h
      change (fields.setSub attr sub (.list values)).1 ≠ fields at hchanged
      rw [setSub_of_list hlist] at h hchanged
      obtain ⟨before, blocking, after, gave, due, rest, rfl, rfl, hlength, htakes, hblocks⟩ :=
        deal_failed h
      rw [deal_blocked hlength htakes hblocks, ne_eq, update_dealt_eq_self_iff hlist] at hchanged
      exact .intro hleads hlist hlength htakes hblocks hchanged

/-- A set fails and leaves a changed record just if it stops late. -/
theorem failed_and_changed_iff (r : Record) (key : Key) (value : Value) :
    ((r.setAt key value).2.isSome = true ∧ (r.setAt key value).1 ≠ r) ↔ StopsLate r key value := by
  constructor
  · rintro ⟨hfailed, hchanged⟩
    obtain ⟨e, h⟩ := Option.isSome_iff_exists.mp hfailed
    -- data of an extension are set as a whole, or not at all
    cases key with
    | extension uri =>
      cases value with
      | null => simp [setAt] at h
      | complex fields => simp [setAt] at h
      | _ => exact absurd rfl hchanged
    | attr within path =>
      cases hleads : r.holder? within with
      | none => exact absurd (unchanged_of_not_leads hleads h) hchanged
      | some fields =>
        obtain ⟨herror, hsame⟩ := setAt_of_leads hleads path value
        rw [herror] at h
        rw [ne_eq, hsame] at hchanged
        exact stopsLate_of_setPath hleads h hchanged
  · -- the dealing stops there, and has changed the elements before
    rintro ⟨hleads, hlist, hlength, htakes, hblocks, hchanges⟩
    rename_i within attr sub fields before after gave rest blocking due
    obtain ⟨herror, hsame⟩ := setAt_of_leads hleads ⟨attr, some sub⟩
      (.list (gave ++ due :: rest))
    rw [herror, ne_eq, hsame]
    change (fields.setSub attr sub (.list (gave ++ due :: rest))).2.isSome = true ∧
      ¬ (fields.setSub attr sub (.list (gave ++ due :: rest))).1 = fields
    rw [setSub_of_list hlist, deal_blocked hlength htakes hblocks, update_dealt_eq_self_iff hlist]
    exact ⟨rfl, hchanges⟩

/-- Two addresses, of which the second is no record. -/
def addresses (first : Record) : Record := [("emails", .list [.complex first, .string "x"])]

/-- The key of the types of all addresses. -/
def emailTypes : Key := .attr none ⟨⟨"emails", by decide +kernel⟩, some ⟨"type", by decide +kernel⟩⟩

/-- The second address can not take its type, so the set fails; the first one has it all the same.
    So it is not true that a set that fails leaves the record as it was. -/
theorem setAt_emailTypes :
    Built (addresses [("value", .string "a@x")]) ∧
      setAt (addresses [("value", .string "a@x")]) emailTypes
          (.list [.string "work", .string "home"]) =
        (addresses [("value", .string "a@x"), ("type", .string "work")],
          some (.typeConflict "emails.type" "element 1 is 'string', not complex")) ∧
      ¬ ∀ (r : Record) (key : Key) (value : Value),
        (r.setAt key value).2.isSome = true → (r.setAt key value).1 = r := by
  have hset : setAt (addresses [("value", .string "a@x")]) emailTypes
      (.list [.string "work", .string "home"]) =
        (addresses [("value", .string "a@x"), ("type", .string "work")],
          some (.typeConflict "emails.type" "element 1 is 'string', not complex")) := rfl
  refine ⟨?_, hset, fun hatomic => ?_⟩
  · refine .insert "emails" .empty (.list (List.forall_mem_cons.mpr ⟨?_, ?_⟩))
    · exact .complex (.insert "value" .empty (.scalar rfl rfl))
    · exact List.forall_mem_cons.mpr ⟨.scalar rfl rfl, by simp⟩
  · have hsame := hatomic (addresses [("value", .string "a@x")]) emailTypes
      (.list [.string "work", .string "home"]) (by rw [hset]; rfl)
    rw [hset] at hsame
    simp [addresses] at hsame

end Record

end Scim
