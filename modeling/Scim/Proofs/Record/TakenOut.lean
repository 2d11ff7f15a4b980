import Scim.Proofs.Record.ReadBack

/-!
  # What is taken out was read before, and nothing else goes with it

  A pop goes the way of a look-up and takes out what it finds at the end: an entry of the record, of
  the data of an extension or of a complex value, or such an entry of each element of a list.

    * One entry: where keys do not differ in case only, a key that is erased finds nothing any more
      (`Distinct.get?_erase`), and other keys find what they found before (`get?_erase_of_ne`).
    * The end of the way: `popSub` is shown to take what `getSub?` gives, and `popPath` what
      `getPath?` gives, or to change nothing.
    * The way through an extension is a pop from its data, which are put back (`popAt_extension`).

  `takesOnly_takeOut` puts these together for all ways to name a key.  A key beside the one popped
  (`Key.Beside`) leads elsewhere, or to another sub-attribute, which may be one of the same elements.
-/

namespace Scim

/-! ## Keys beside each other -/

/-- The paths name different attributes, or different sub-attributes. -/
def Path.Beside (path other : Path) : Prop :=
  path.attr.key ≠ other.attr.key ∨ ∃ sub ∈ path.sub, ∃ sub' ∈ other.sub, sub.key ≠ sub'.key

namespace Key

/-- The sub-attribute that a key leads to. -/
def sub? : Key → Option Name
  | .extension _ => none
  | .attr _ path => path.sub

/-- One key leads elsewhere than the other, or they lead to different sub-attributes. -/
def Beside (key other : Key) : Prop :=
  key.Elsewhere other ∨ ∃ sub ∈ key.sub?, ∃ sub' ∈ other.sub?, sub.key ≠ sub'.key

/-- Keys beside each other that begin with the same entry lead into one part, along paths beside each
    other. -/
theorem Beside.exists_paths {key other : Key} (h : key.Beside other)
    (hhead : Text.lower key.head = Text.lower other.head) :
    ∃ within path within' path', key = .attr within path ∧ other = .attr within' path' ∧
      within.map SchemaUri.key = within'.map SchemaUri.key ∧ path.Beside path' := by
  have hwithin : key.within?.map SchemaUri.key = other.within?.map SchemaUri.key :=
    Decidable.not_not.mp fun hne => lower_head_ne hne hhead
  rcases h with (hpart | ⟨_, hattr, _, hattr', hne⟩) | ⟨_, hsub, _, hsub', hne⟩
  · exact absurd hwithin hpart
  · obtain ⟨within, path, rfl, rfl⟩ := exists_path_of_attr? hattr
    obtain ⟨within', path', rfl, rfl⟩ := exists_path_of_attr? hattr'
    exact ⟨within, path, within', path', rfl, rfl, hwithin, .inl hne⟩
  · cases key with
    | extension uri => nomatch hsub
    | attr within path =>
      cases other with
      | extension uri => nomatch hsub'
      | attr within' path' =>
        exact ⟨within, path, within', path', rfl, rfl, hwithin, .inr ⟨_, hsub, _, hsub', hne⟩⟩

end Key

namespace Record

variable {r fields : Record} {key : Key} {attr sub : Name} {path other : Path} {value : Value}

/-! ## Erasing an entry -/

/-- Other keys find what they found before. -/
theorem get?_erase_of_ne {key other : String} (h : Text.lower key ≠ Text.lower other) (r : Record) :
    (r.erase key).get? other = r.get? other := by
  rcases r.lacks_or_has key with hlacks | ⟨before, stored, old, after, rfl, hlacks, hhas⟩
  · rw [erase_of_lacks hlacks]
  · rw [erase_of_has hlacks hhas]
    -- the entry that is erased has not the other key
    have hstored : sameKey stored other = false := by
      rw [Bool.eq_false_iff, ne_eq, sameKey_iff, hhas]
      exact h
    clear hlacks
    induction before with
    | nil => simp [get?, hstored]
    | cons entry before ih => simp only [List.cons_append, get?, ih]

/-- A key that is erased is not found any more. -/
theorem Distinct.get?_erase (h : r.Distinct) (key : String) : (r.erase key).get? key = none := by
  cases h.keyed key with
  | found before after stored old place has others get insert erase =>
    rw [erase]
    exact get?_of_lacks others
  | lacking lacks get insert erase =>
    rw [erase]
    exact get

/-- Erasing what is not there changes nothing. -/
theorem erase_of_get?_eq_none {key : String} (h : r.get? key = none) : r.erase key = r := by
  rcases r.lacks_or_has key with hlacks | ⟨before, stored, old, after, rfl, hlacks, hhas⟩
  · exact erase_of_lacks hlacks
  · simp [get?_of_has hlacks hhas] at h

/-! ## Taking a sub-attribute out of a value -/

/-- What is read where something was taken out: nothing, or, where there are elements that a
    sub-attribute was taken from, a null for each of them. -/
inductive Gone (elements : Option (List Value)) (now : Option Value) : Prop
  | none (single : elements = .none) (read : now = .none)
  | nulls {items : List Value} (list : elements = some items)
      (read : now = some (.list (List.replicate items.length .null)))

/-- A list element without a sub-attribute. -/
def without (sub : Name) (item : Value) : Value :=
  match item with
  | .complex fields => .complex (erase fields sub.text)
  | other => other

/-- A sub-attribute is taken out of each element of a list. -/
theorem popSub_list (items : List Value) (sub : Name) :
    (popSub (.list items) sub).2 = .list (items.map (without sub)) := rfl

/-- What is taken is what would have been read. -/
theorem popSub_taken (value : Value) (sub : Name) :
    (popSub value sub).1 = getSub? value sub .null := by
  cases value <;> rfl

/-- Where none is read, nothing is taken out. -/
theorem popSub_of_none (h : getSub? value sub .null = none) : (popSub value sub).2 = value := by
  cases value with
  | complex fields => exact congrArg Value.complex (erase_of_get?_eq_none h)
  | list items => nomatch h
  | _ => rfl

/-- An element without the sub-attribute reads as null. -/
theorem getSubD_without (h : value.WellKeyed) (sub : Name) :
    getSubD sub .null (without sub value) = .null := by
  cases value with
  | complex fields =>
    have hdistinct := (Value.wellKeyed_complex_iff.mp h).1
    simp [without, getSubD, Value.complex?, hdistinct.get?_erase]
  | _ => rfl

/-- A sub-attribute that was taken out is gone. -/
theorem gone_popSub (h : value.WellKeyed) (sub : Name) :
    Gone value.list? (getSub? (popSub value sub).2 sub .null) := by
  cases value with
  | complex fields => exact .none rfl ((Value.wellKeyed_complex_iff.mp h).1.get?_erase sub.text)
  -- a null is read for each element
  | list items =>
    refine .nulls rfl ?_
    have hnull : ∀ item ∈ items.map (without sub), getSubD sub .null item = .null :=
      List.forall_mem_map.mpr fun item hitem =>
        getSubD_without (Value.wellKeyed_list_iff.mp h item hitem) sub
    rw [popSub_list, getSub?_list, List.map_congr_left hnull, List.map_const', List.length_map]
  | _ => exact .none rfl rfl

/-- And all other sub-attributes are there as before. -/
theorem getSub?_popSub_of_ne {sub' : Name} (h : sub.key ≠ sub'.key) (value lacking : Value) :
    getSub? (popSub value sub).2 sub' lacking = getSub? value sub' lacking := by
  cases value with
  | complex fields => exact get?_erase_of_ne h fields
  | list items =>
    have hother : ∀ item, getSubD sub' lacking (without sub item) = getSubD sub' lacking item := by
      intro item
      cases item with
      | complex fields =>
        simp only [without, getSubD, Value.complex?, Option.bind_some, get?_erase_of_ne h]
      | _ => rfl
    rw [popSub_list, getSub?_list, getSub?_list, List.map_map]
    simp only [Function.comp_def, hother]
  | _ => rfl

/-! ## Taking out what a path addresses -/

/-- Where the attribute is, its value is put back without the sub-attribute. -/
theorem popPath_sub (hget : r.get? attr.text = some value) (sub : Name) :
    r.popPath ⟨attr, some sub⟩ =
      ((popSub value sub).1, r.update attr.text (popSub value sub).2) := by
  simp only [popPath, hget]

/-- Where the attribute is not, nothing is taken out. -/
theorem popPath_sub_of_none (hget : r.get? attr.text = none) (sub : Name) :
    r.popPath ⟨attr, some sub⟩ = (none, r) := by
  simp only [popPath, hget]

/-- What a path takes out is what it reads. -/
theorem popPath_taken (r : Record) (path : Path) :
    (r.popPath path).1 = r.getPath? path .null := by
  obtain ⟨attr, sub⟩ := path
  cases sub with
  | none => exact (Option.bind_fun_some _).symm
  | some sub =>
    cases hget : r.get? attr.text with
    | none => simp [popPath_sub_of_none hget, getPath?, hget]
    | some value => simp [popPath_sub hget, getPath?, hget, popSub_taken]

/-- Where it reads nothing, nothing changes. -/
theorem popPath_of_none (h : r.getPath? path .null = none) : (r.popPath path).2 = r := by
  obtain ⟨attr, sub⟩ := path
  cases sub with
  | none => exact erase_of_get?_eq_none ((Option.bind_fun_some _).symm.trans h)
  | some sub =>
    cases hget : r.get? attr.text with
    | none => rw [popPath_sub_of_none hget]
    | some value =>
      have hsub : getSub? value sub .null = none := by simpa [getPath?, hget] using h
      rw [popPath_sub hget, popSub_of_none hsub]
      exact (update_eq_self_iff hget).mpr rfl

/-- And what it took out is gone. -/
theorem gone_popPath (h : r.WellKeyed) (path : Path) :
    Gone (r.elementsIn? path) ((r.popPath path).2.getPath? path .null) := by
  obtain ⟨attr, sub⟩ := path
  cases sub with
  | none =>
    have hgone := (Value.wellKeyed_complex_iff.mp h).1.get?_erase attr.text
    exact .none rfl ((Option.bind_fun_some _).trans hgone)
  | some sub =>
    cases hget : r.get? attr.text with
    | none =>
      rw [popPath_sub_of_none hget]
      exact .none (by simp [elementsIn?, hget]) (by simp [getPath?, hget])
    -- the value is put back without the sub-attribute, and read there
    | some value =>
      have hput : Puts r (r.update attr.text (popSub value sub).2) attr.text (popSub value sub).2 :=
        puts_update (by simp [hget]) _
      have hnow := hput.get?_of_same rfl
      rw [popPath_sub hget]
      simpa [elementsIn?, Path.isSub, getPath?, hget, hnow] using gone_popSub (h.get? hget) sub

/-- Keys that are not the attribute's find what they found before. -/
theorem get?_popPath_of_ne {other : String} (h : path.attr.key ≠ Text.lower other) (r : Record) :
    (r.popPath path).2.get? other = r.get? other := by
  obtain ⟨attr, sub⟩ := path
  cases sub with
  | none => exact get?_erase_of_ne h r
  | some sub =>
    cases hget : r.get? attr.text with
    | none => rw [popPath_sub_of_none hget]
    | some value =>
      rw [popPath_sub hget]
      exact (puts_update (by simp [hget]) _).get?_of_ne h

/-- A path beside the one popped finds what it found before. -/
theorem getPath?_popPath_of_beside (h : path.Beside other) (r : Record) (lacking : Value) :
    (r.popPath path).2.getPath? other lacking = r.getPath? other lacking := by
  by_cases hattr : path.attr.key = other.attr.key
  · obtain ⟨sub, hsub, sub', hsub', hne⟩ := h.resolve_left (not_not_intro hattr)
    obtain ⟨attr, _⟩ := path
    obtain ⟨attr', _⟩ := other
    obtain rfl := Option.mem_def.mp hsub
    obtain rfl := Option.mem_def.mp hsub'
    -- both sub-attributes belong to one attribute
    have hsame : r.get? attr'.text = r.get? attr.text := get?_congr hattr.symm r
    cases hget : r.get? attr.text with
    | none => rw [popPath_sub_of_none hget]
    | some value =>
      have hput : Puts r (r.update attr.text (popSub value sub).2) attr.text (popSub value sub).2 :=
        puts_update (by simp [hget]) _
      have hnow := hput.get?_of_same hattr
      rw [popPath_sub hget]
      simp [getPath?, hsame, hget, hnow, getSub?_popSub_of_ne hne]
  · simp only [getPath?, get?_popPath_of_ne hattr]

/-! ## Taking out what a key addresses -/

/-- A pop in an extension is one from its data, which are put back; where there are none, nothing is
    done. -/
theorem popAt_extension (r : Record) (uri : SchemaUri) (path : Path) :
    (∃ fields, r.get? uri.text = some (.complex fields) ∧
      r.popAt (.attr (some uri) path) =
        ((popPath fields path).1, r.update uri.text (.complex (popPath fields path).2))) ∨
    r.extensionData uri = [] ∧ r.popAt (.attr (some uri) path) = (none, r) := by
  unfold extensionData
  cases hget : r.get? uri.text with
  | none => exact .inr ⟨rfl, by simp only [popAt, hget]⟩
  | some value =>
    cases value with
    | complex fields => exact .inl ⟨fields, rfl, by simp only [popAt, hget]⟩
    | _ => exact .inr ⟨rfl, by simp only [popAt, hget]⟩

/-- The data of an extension are the record stored for it. -/
theorem extensionData_of_get? {uri : SchemaUri} (h : r.get? uri.text = some (.complex fields)) :
    r.extensionData uri = fields := by
  rw [extensionData, h]
  rfl

theorem popPath_nil (path : Path) : popPath [] path = (none, []) := by
  obtain ⟨attr, sub⟩ := path
  cases sub <;> rfl

/-- The data of the extension after a pop in it. -/
theorem extensionData_popAt {uri uri' : SchemaUri} (h : uri.key = uri'.key) (r : Record)
    (path : Path) : (r.popAt (.attr (some uri) path)).2.extensionData uri' =
      ((r.extensionData uri).popPath path).2 := by
  rcases popAt_extension r uri path with ⟨fields, hget, hpop⟩ | ⟨hempty, hpop⟩
  · rw [hpop, extensionData_of_get? hget]
    exact extensionData_of_puts (puts_update (by simp [hget]) _) h
  · rw [hpop, hempty, popPath_nil, ← hempty, extensionData, extensionData, get?_congr h.symm]

/-- What is taken is what would have been read. -/
theorem popAt_taken (r : Record) (key : Key) : (r.popAt key).1 = r.getAt? key .null := by
  cases key with
  | extension uri => rfl
  | attr within path =>
    cases within with
    | none => exact popPath_taken r path
    | some uri =>
      rw [getAt?_extension, ← popPath_taken]
      -- there are data of the extension, or there are none and nothing is read
      rcases popAt_extension r uri path with ⟨fields, hget, hpop⟩ | ⟨hempty, hpop⟩
      · rw [hpop, extensionData_of_get? hget]
      · rw [hpop, hempty, popPath_nil]

/-- Where nothing is read, nothing changes. -/
theorem popAt_of_none (h : r.getAt? key .null = none) : (r.popAt key).2 = r := by
  cases key with
  | extension uri => exact erase_of_get?_eq_none h
  | attr within path =>
    cases within with
    | none => exact popPath_of_none h
    | some uri =>
      rcases popAt_extension r uri path with ⟨fields, hget, hpop⟩ | ⟨-, hpop⟩
      · rw [getAt?_extension, extensionData_of_get? hget] at h
        rw [hpop, popPath_of_none h]
        exact (update_eq_self_iff hget).mpr rfl
      · rw [hpop]

/-- The data of an extension are part of the record. -/
theorem wellKeyed_extensionData (h : r.WellKeyed) (uri : SchemaUri) :
    (r.extensionData uri).WellKeyed := by
  unfold extensionData
  cases hdata : (r.get? uri.text).bind Value.complex? with
  | none => exact wellKeyed_nil
  | some fields =>
    obtain ⟨value, hget, hcomplex⟩ := Option.bind_eq_some_iff.mp hdata
    obtain rfl := Value.eq_complex_of_complex? hcomplex
    exact h.get? hget

/-- What was taken out is gone. -/
theorem gone_popAt (h : r.WellKeyed) (key : Key) :
    Gone (r.elementsAt? key) ((r.popAt key).2.getAt? key .null) := by
  cases key with
  | extension uri => exact .none rfl ((Value.wellKeyed_complex_iff.mp h).1.get?_erase uri.text)
  | attr within path =>
    cases within with
    | none =>
      rw [elementsAt?_attr]
      exact gone_popPath h path
    | some uri =>
      rw [elementsAt?_extension, getAt?_extension, extensionData_popAt rfl]
      exact gone_popPath (wellKeyed_extensionData h uri) path

/-! ## Reading beside -/

/-- A pop changes the entry only that its key begins with. -/
theorem get?_popAt_of_ne {other : String} (h : Text.lower key.head ≠ Text.lower other) (r : Record) :
    (r.popAt key).2.get? other = r.get? other := by
  cases key with
  | extension uri => exact get?_erase_of_ne h r
  | attr within path =>
    cases within with
    | none => exact get?_popPath_of_ne h r
    | some uri =>
      rcases popAt_extension r uri path with ⟨fields, hget, hpop⟩ | ⟨-, hpop⟩
      · rw [hpop]
        exact (puts_update (by simp [hget]) _).get?_of_ne h
      · rw [hpop]

/-- A key beside the one popped reads what it read before. -/
theorem getAt?_popAt_of_beside {other : Key} (h : key.Beside other) (r : Record) (lacking : Value) :
    (r.popAt key).2.getAt? other lacking = r.getAt? other lacking := by
  -- unless both keys begin with the same entry, the other one does not come by it
  by_cases hhead : Text.lower key.head = Text.lower other.head
  · obtain ⟨within, path, within', path', rfl, rfl, hwithin, hbeside⟩ := h.exists_paths hhead
    cases within with
    | none =>
      cases within' with
      | none => exact getPath?_popPath_of_beside hbeside r lacking
      | some uri' => nomatch hwithin
    | some uri =>
      cases within' with
      | none => nomatch hwithin
      | some uri' =>
        have hkey : uri.key = uri'.key := Option.some.inj hwithin
        have hsame : r.extensionData uri' = r.extensionData uri := by
          rw [extensionData, extensionData, get?_congr hkey.symm]
        rw [getAt?_extension, getAt?_extension, extensionData_popAt hkey, hsame]
        exact getPath?_popPath_of_beside hbeside _ lacking
  · exact getAt?_congr_head (get?_popAt_of_ne hhead r) lacking

/-! ## All ways to name a key -/

/-- What a pop takes out of a record and leaves behind, as it is read. -/
structure TakesOnly (c : Catalog) (r r' : Record) (source : Key.Source) (taken : Option Value) :
    Prop where
  /-- What is taken is what was read. -/
  read : taken = r.read? c source
  /-- Where nothing was read, nothing changes. -/
  untouched : r.read? c source = none → r' = r
  /-- Nothing is read any more, or nulls where a sub-attribute was taken out of the elements of a
      list. -/
  gone : ∀ key, source.key c = .ok key → Gone (r.elementsAt? key) (r'.read? c source)
  /-- All that lies beside reads as before. -/
  unchanged : ∀ key other otherKey, source.key c = .ok key → Key.Source.key c other = .ok otherKey →
    key.Beside otherKey → r'.read? c other = r.read? c other

/-- What a source names is read by its key. -/
theorem read?_of_key {c : Catalog} {source : Key.Source} (h : source.key c = .ok key) (r : Record) :
    r.read? c source = r.getAt? key .null := by
  rw [read?, h]
  rfl

/-- What was read is taken out, and nothing else goes with it. -/
theorem takesOnly_takeOut (h : r.WellKeyed) (c : Catalog) (source : Key.Source) :
    TakesOnly c r (r.takeOut c source).2 source (r.takeOut c source).1 := by
  cases hkey : source.key c with
  | error e =>
    -- a key that is none finds nothing and takes nothing
    have hread : r.read? c source = none := by
      rw [read?, hkey]
      rfl
    have htake : r.takeOut c source = (none, r) := by
      rw [takeOut, hkey]
      rfl
    rw [htake]
    exact ⟨hread.symm, fun _ => rfl, by simp [hkey], by simp [hkey]⟩
  | ok key =>
    have htake : r.takeOut c source = r.popAt key := by
      rw [takeOut, hkey]
      rfl
    rw [htake]
    refine ⟨?_, fun hnone => ?_, fun key' hkey' => ?_, fun key' other otherKey hkey' hother hbeside => ?_⟩
    · rw [read?_of_key hkey]
      exact popAt_taken r key
    · rw [read?_of_key hkey] at hnone
      exact popAt_of_none hnone
    · obtain rfl := Except.ok.inj (hkey.symm.trans hkey')
      rw [read?_of_key hkey]
      exact gone_popAt h key
    · obtain rfl := Except.ok.inj (hkey.symm.trans hkey')
      rw [read?_of_key hother, read?_of_key hother]
      exact getAt?_popAt_of_beside hbeside r .null

/-- A user with two addresses, one of them with a type, and something between them that is no
    address. -/
def strayMailUser (first : Record) : Record :=
  [ ("userName", .string "kim"),
    ("emails", .list [.complex (("value", .string "a@x") :: first), .string "n/a",
      .complex [("value", .string "b@x")]]) ]

/-- No record in the user has two keys that differ in case only. -/
theorem wellKeyed_strayMailUser :
    (strayMailUser [("type", .string "work")]).WellKeyed := by
  have hscalar : ∀ s, (Value.string s).WellKeyed := fun s => Value.wellKeyed_of_scalar rfl rfl
  refine Value.wellKeyed_complex_iff.mpr ⟨by decide +kernel, ?_⟩
  simp only [strayMailUser, List.forall_mem_cons, Value.wellKeyed_list_iff,
    Value.wellKeyed_complex_iff]
  refine ⟨hscalar _, ⟨⟨by decide +kernel, hscalar _, hscalar _, by simp⟩, hscalar _,
    ⟨by decide +kernel, hscalar _, by simp⟩, by simp⟩, by simp⟩

/-- The types are taken out of the addresses: a null stands for each element without a type, and for
    all of them afterwards. -/
theorem takesOnly_takeOut_types :
    (strayMailUser [("type", .string "work")]).WellKeyed ∧
      takeOut .empty (strayMailUser [("type", .string "work")]) (.text "Emails.TYPE") =
        (some (.list [.string "work", .null, .null]), strayMailUser []) ∧
      TakesOnly .empty (strayMailUser [("type", .string "work")]) (strayMailUser [])
        (.text "Emails.TYPE") (some (.list [.string "work", .null, .null])) ∧
      read? .empty (strayMailUser []) (.text "Emails.TYPE") =
        some (.list [.null, .null, .null]) := by
  have htake : takeOut .empty (strayMailUser [("type", .string "work")]) (.text "Emails.TYPE") =
      (some (.list [.string "work", .null, .null]), strayMailUser []) := rfl
  have htakes := takesOnly_takeOut wellKeyed_strayMailUser .empty (.text "Emails.TYPE")
  rw [htake] at htakes
  exact ⟨wellKeyed_strayMailUser, htake, htakes, rfl⟩

end Record

end Scim
