import Scim.Proofs.Record.Setting
import Scim.Proofs.Schema.Parts

/-!
  # What was set is read back, and nothing else changes

  A set that succeeds puts one value under one key at the top of the record, as look-ups see it
  (`Puts`): a new attribute, or an attribute or the data of an extension made from what was there.

    * `map_getSubD_deal`: the elements of a list give back the values that were dealt out to them, and
      those left over what they had.  This is the only case in which something else is read than was
      set (`ReadsBack`).
    * `puts_setSub`: a set of a sub-attribute reads back; a set of an attribute does so at once, and
      one in an extension is a set in the data of the extension (`puts_setAt_extension`).
    * `getAt?_congr_head`: a key only sees the entry that it begins with.  So a key that leads elsewhere
      (`Key.Elsewhere`) does not come by the place that was written, unless it leads into the same
      extension, where it finds another attribute as it was.

  `read?_write` puts these together for all ways to name a key.  It asks nothing of the keys of the
  record: the first entry of a key is the one that is written, and it is the one that is read.
-/

namespace Scim

/-! ## Keys that lead elsewhere -/

namespace Key

/-- The extension that a key leads into, if it does not stay in the base. -/
def within? : Key → Option SchemaUri
  | .extension uri => some uri
  | .attr within _ => within

/-- The attribute that a key leads to, if it is not the whole data of an extension. -/
def attr? : Key → Option Name
  | .extension _ => none
  | .attr _ path => some path.attr

/-- One key leads into the base and the other into an extension, or they lead into different
    extensions, or to different attributes. -/
def Elsewhere (key other : Key) : Prop :=
  key.within?.map SchemaUri.key ≠ other.within?.map SchemaUri.key ∨
    ∃ attr ∈ key.attr?, ∃ attr' ∈ other.attr?, attr.key ≠ attr'.key

/-- Whether a key leads to a sub-attribute. -/
def isSub : Key → Bool
  | .extension _ => false
  | .attr _ path => path.isSub

/-- The key of the attribute that a key leads to or into. -/
def parent : Key → Key
  | .extension uri => .extension uri
  | .attr within path => .attr within path.parent

/-- The key of the entry that a key begins with. -/
def head : Key → String
  | .extension uri => uri.text
  | .attr none path => path.attr.text
  | .attr (some uri) _ => uri.text

variable {key other : Key}

/-- A key into an extension begins with the entry of the extension. -/
theorem head_of_within? {uri : SchemaUri} (h : key.within? = some uri) : key.head = uri.text := by
  cases key with
  | extension uri' => rw [← Option.some.inj h, head]
  | attr within path =>
    obtain rfl : within = some uri := h
    rfl

/-- A key that stays in the base is a path. -/
theorem exists_path_of_within? (h : key.within? = none) : ∃ path, key = .attr none path := by
  cases key with
  | extension uri => nomatch h
  | attr within path => exact ⟨path, by rw [show within = none from h]⟩

/-- A key with an attribute is a path as well, from wherever. -/
theorem exists_path_of_attr? {attr : Name} (h : attr ∈ key.attr?) :
    ∃ within path, key = .attr within path ∧ path.attr = attr := by
  cases key with
  | extension uri => nomatch h
  | attr within path => exact ⟨within, path, rfl, Option.some.inj h⟩

/-- Keys that lead into different parts begin with different entries. -/
theorem lower_head_ne (h : key.within?.map SchemaUri.key ≠ other.within?.map SchemaUri.key) :
    Text.lower key.head ≠ Text.lower other.head := by
  -- the name of an attribute is never the URI of an extension
  have hname : ∀ (n : Name) (u : SchemaUri), Text.lower n.text ≠ Text.lower u.text := by
    intro n u
    simpa [Record.sameKey] using not_sameKey_name_uri n u
  cases hkey : key.within? with
  | none =>
    obtain ⟨path, rfl⟩ := exists_path_of_within? hkey
    cases hother : other.within? with
    | none => exact absurd (by rw [hkey, hother]) h
    | some uri =>
      rw [head_of_within? hother]
      exact hname path.attr uri
  | some uri =>
    rw [head_of_within? hkey]
    cases hother : other.within? with
    | none =>
      obtain ⟨path, rfl⟩ := exists_path_of_within? hother
      exact (hname path.attr uri).symm
    | some uri' =>
      rw [head_of_within? hother]
      simpa [hkey, hother, SchemaUri.key] using h

end Key

namespace Record

variable {r r' fields : Record} {key : Key} {attr sub : Name} {path : Path} {value lacking : Value}
  {items values : List Value} {conflict : String → Error} {index : Nat}

/-! ## One value under one key -/

/-- Look-ups find a value under a key, and under all others what they found before. -/
def Puts (r r' : Record) (key : String) (value : Value) : Prop :=
  ∀ other, r'.get? other = if Text.lower key = Text.lower other then some value else r.get? other

/-- The value is found under its key, in any casing. -/
theorem Puts.get?_of_same {key other : String} (h : Puts r r' key value)
    (hsame : Text.lower key = Text.lower other) : r'.get? other = some value := by
  rw [h other, if_pos hsame]

/-- And nothing changes under any other. -/
theorem Puts.get?_of_ne {key other : String} (h : Puts r r' key value)
    (hne : Text.lower key ≠ Text.lower other) : r'.get? other = r.get? other := by
  rw [h other, if_neg hne]

/-- An insertion puts one value under one key. -/
theorem puts_insert (r : Record) (key : String) (value : Value) :
    Puts r (r.insert key value) key value := by
  intro other
  induction r with
  | nil => simp [insert, get?, sameKey]
  | cons entry rest ih =>
    obtain ⟨stored, old⟩ := entry
    -- the first entry is replaced, or passed over
    by_cases hstored : Text.lower stored = Text.lower key
    · rw [insert, if_pos (sameKey_iff.mpr hstored)]
      simp only [get?, sameKey, hstored, beq_iff_eq]
      split <;> rfl
    · rw [insert, if_neg (mt sameKey_iff.mp hstored)]
      simp only [get?, ih, sameKey_iff]
      by_cases hother : Text.lower stored = Text.lower other
      · -- the entry passed over is one of another key
        have hne : Text.lower key ≠ Text.lower other := fun hkey => hstored (hother.trans hkey.symm)
        simp only [if_pos hother, if_neg hne]
      · simp only [if_neg hother]

/-- Where there is an entry, changing it is as good as inserting. -/
theorem puts_update {key : String} (h : r.get? key ≠ none) (value : Value) :
    Puts r (r.update key value) key value := by
  intro other
  rw [← puts_insert r key value other]
  rcases r.lacks_or_has key with hlacks | ⟨before, stored, old, after, rfl, hlacks, hhas⟩
  · exact absurd (get?_of_lacks hlacks) h
  · rw [update_of_has hlacks hhas, insert_of_has hlacks hhas]
    have hsame : sameKey stored other = sameKey key other := by simp only [sameKey, hhas]
    -- the casing of the stored key is all that the two differ in
    clear h hlacks
    induction before with
    | nil => simp only [List.nil_append, get?, hsame]
    | cons entry before ih => simp only [List.cons_append, get?, ih]

/-! ## Dealing out -/

/-- A sub-attribute of a list element; elements without it read as `lacking`. -/
def getSubD (sub : Name) (lacking item : Value) : Value :=
  (item.complex?.bind fun fields => get? fields sub.text).getD lacking

/-- Of a list a sub-attribute is read in each element. -/
theorem getSub?_list (items : List Value) (sub : Name) (lacking : Value) :
    getSub? (.list items) sub lacking = some (.list (items.map (getSubD sub lacking))) := rfl

/-- What was inserted is found. -/
theorem get?_insert_self (fields : Record) (key : String) (value : Value) :
    (fields.insert key value).get? key = some value := (puts_insert fields key value).get?_of_same rfl

theorem getSub?_element (sub : Name) (value lacking : Value) :
    getSub? (element sub value) sub lacking = some value := get?_insert_self [] sub.text value

/-- An element that a sub-attribute was written to gives it back. -/
theorem getSubD_insert (fields : Record) (sub : Name) (value lacking : Value) :
    getSubD sub lacking (.complex (fields.insert sub.text value)) = value := by
  simp [getSubD, Value.complex?, get?_insert_self]

theorem getSubD_element (sub : Name) (value lacking : Value) :
    getSubD sub lacking (element sub value) = value := getSubD_insert [] sub value lacking

/-- Elements that were made for values give them back. -/
theorem map_getSubD_element (sub : Name) (lacking : Value) (values : List Value) :
    (values.map (element sub)).map (getSubD sub lacking) = values := by
  rw [List.map_map]
  have hself : ∀ value ∈ values, (getSubD sub lacking ∘ element sub) value = value :=
    fun value _ => getSubD_element sub value lacking
  exact (List.map_congr_left hself).trans (List.map_id' values)

/-- Elements give back what was dealt out to them, and those left over what they had. -/
theorem map_getSubD_deal (h : (deal sub conflict index items values).2 = none) (lacking : Value) :
    (deal sub conflict index items values).1.map (getSubD sub lacking) =
      values ++ (items.map (getSubD sub lacking)).drop values.length := by
  -- element by element, until there are no elements or no values
  fun_induction deal sub conflict index items values with
  | case1 index items => simp
  | case2 index values => simpa using map_getSubD_element sub lacking values
  | case3 index fields items value values dealt error hdealt ih =>
    rw [hdealt] at ih
    simp [getSubD_insert, ih h]
  | case4 index items value values dealt error hdealt ih =>
    rw [hdealt] at ih
    simp [getSubD_element, ih h]
  | case5 => simp at h

/-! ## Setting a sub-attribute -/

/-- What is read where a value was set: the value, or, where there are elements that it was dealt out
    to, the values dealt out and behind them those that were not replaced.  What was read before is
    one value for each element. -/
inductive ReadsBack (elements : Option (List Value)) (value : Value) (before now : Option Value) :
    Prop
  | whole (single : elements = none) (read : now = some value)
  | dealt {items values olds : List Value} (list : elements = some items)
    (given : value = .list values) (had : before = some (.list olds))
    (each : olds.length = items.length)
    (read : now = some (.list (values ++ olds.drop values.length)))

/-- What is made of a value where there is no attribute. -/
def made (sub : Name) (value : Value) : Value :=
  match value with
  | .list values => .list (values.map (element sub))
  | value => element sub value

/-- What was made of a value gives it back, as one value or as a list. -/
theorem getSub?_made (sub : Name) (value lacking : Value) :
    getSub? (made sub value) sub lacking = some value := by
  cases value with
  | list values => exact (getSub?_list _ _ _).trans (by rw [map_getSubD_element])
  | _ => exact getSub?_element sub _ lacking

/-- Where there is no attribute, or null, one is made. -/
theorem setSub_of_null (h : r.getD attr.text = .null) (sub : Name) (value : Value) :
    r.setSub attr sub value = (r.insert attr.text (made sub value), none) ∧
      (r.get? attr.text).bind Value.list? = none := by
  unfold getD at h
  unfold setSub
  cases hget : r.get? attr.text with
  | none => exact ⟨rfl, rfl⟩
  | some old =>
    obtain rfl : old = .null := by simpa [hget] using h
    exact ⟨rfl, rfl⟩

/-- Setting a sub-attribute puts one value under the attribute, from which the sub-attribute is read
    back. -/
theorem puts_setSub (h : r.setSub attr sub value = (r', none)) :
    ∃ stored, Puts r r' attr.text stored ∧ ∀ lacking,
      ReadsBack ((r.get? attr.text).bind Value.list?) value
        ((r.get? attr.text).bind (getSub? · sub lacking)) (getSub? stored sub lacking) := by
  -- without an attribute one is made; otherwise the one that is there changes
  by_cases hnull : r.getD attr.text = .null
  · obtain ⟨hmade, hsingle⟩ := setSub_of_null hnull sub value
    obtain ⟨rfl, -⟩ := Prod.mk.inj (hmade.symm.trans h)
    exact ⟨_, puts_insert r attr.text _, fun lacking =>
      .whole hsingle (getSub?_made sub value lacking)⟩
  · cases hget : r.get? attr.text with
    | none => simp [getD, hget] at hnull
    | some old =>
      have hput : ∀ stored, Puts r (r.update attr.text stored) attr.text stored :=
        puts_update (by simp [hget])
      cases old with
      | null => simp [getD, hget] at hnull
      | complex fields =>
        simp only [setSub, hget] at h
        obtain ⟨rfl, -⟩ := Prod.mk.inj h
        exact ⟨_, hput _, fun lacking => .whole rfl (get?_insert_self fields sub.text value)⟩
      | list items =>
        cases value with
        | list values =>
          rw [setSub_of_list hget] at h
          obtain ⟨rfl, hdealt⟩ := Prod.mk.inj h
          refine ⟨_, hput _, fun lacking => .dealt rfl rfl (getSub?_list items sub lacking)
            (List.length_map _) ?_⟩
          rw [getSub?_list, map_getSubD_deal hdealt]
        | _ => simp [setSub, hget] at h
      | _ => simp [setSub, hget] at h

/-! ## Setting what a path addresses -/

/-- The elements of the attribute, if a path leads to a sub-attribute of a list. -/
def elementsIn? (r : Record) (path : Path) : Option (List Value) :=
  if path.isSub then (r.get? path.attr.text).bind Value.list? else none

/-- So does setting what a path leads to. -/
theorem puts_setPath (h : r.setPath path value = (r', none)) :
    ∃ stored, Puts r r' path.attr.text stored ∧ ∀ lacking,
      ReadsBack (r.elementsIn? path) value (r.getPath? path lacking) (r'.getPath? path lacking) := by
  obtain ⟨attr, sub⟩ := path
  cases sub with
  | none =>
    obtain ⟨rfl, -⟩ := Prod.mk.inj h
    refine ⟨value, puts_insert r attr.text value, fun lacking => .whole rfl ?_⟩
    simp only [getPath?, get?_insert_self, Option.bind_eq_bind, Option.bind_some]
  | some sub =>
    obtain ⟨stored, hputs, hback⟩ := puts_setSub h
    refine ⟨stored, hputs, fun lacking => ?_⟩
    have hnow : r'.get? attr.text = some stored := hputs.get?_of_same rfl
    have hread := hback lacking
    simpa only [elementsIn?, Path.isSub, Option.isSome_some, if_true, getPath?, hnow,
      Option.bind_eq_bind, Option.bind_some] using hread

/-- A path to another attribute finds what it found before. -/
theorem Puts.getPath?_eq {stored : Value} {other : Path} (h : Puts r r' path.attr.text stored)
    (hne : path.attr.key ≠ other.attr.key) (lacking : Value) :
    r'.getPath? other lacking = r.getPath? other lacking := by
  simp only [getPath?, h.get?_of_ne hne]

/-! ## Setting what a key addresses -/

/-- The data of an extension, empty if there are none. -/
def extensionData (r : Record) (uri : SchemaUri) : Record :=
  ((r.get? uri.text).bind Value.complex?).getD []

/-- A key into an extension is read in the data of the extension. -/
theorem getAt?_extension (r : Record) (uri : SchemaUri) (path : Path) (lacking : Value) :
    r.getAt? (.attr (some uri) path) lacking = (r.extensionData uri).getPath? path lacking := by
  show ((r.get? uri.text).bind fun value => value.complex?.bind fun fields =>
    getPath? fields path lacking) = _
  rw [← Option.bind_assoc, extensionData]
  cases (r.get? uri.text).bind Value.complex? with
  | none => simp [getPath?, get?]
  | some fields => rfl

/-- Data that were put are the data of the extension. -/
theorem extensionData_of_puts {uri uri' : SchemaUri} (h : Puts r r' uri.text (.complex fields))
    (hsame : uri.key = uri'.key) : r'.extensionData uri' = fields := by
  rw [extensionData, h.get?_of_same hsame]
  rfl

/-- A set in an extension is one in its data, which are put back. -/
theorem puts_setAt_extension {uri : SchemaUri}
    (h : r.setAt (.attr (some uri) path) value = (r', none)) :
    ∃ fields', (r.extensionData uri).setPath path value = (fields', none) ∧
      Puts r r' uri.text (.complex fields') := by
  -- whatever data there were, they change as a record does that is set by the path, and are put
  -- back
  suffices hshape : ∃ put : Record → Record,
      (∀ fields', Puts r (put fields') uri.text (.complex fields')) ∧
      r.setAt (.attr (some uri) path) value =
        (put ((r.extensionData uri).setPath path value).1,
          ((r.extensionData uri).setPath path value).2) by
    obtain ⟨put, hput, hset⟩ := hshape
    obtain ⟨rfl, herror⟩ := Prod.mk.inj (hset.symm.trans h)
    exact ⟨_, Prod.ext rfl herror, hput _⟩
  unfold extensionData
  cases hget : r.get? uri.text with
  | none =>
    exact ⟨fun fields => r.insert uri.text (.complex fields), fun _ => puts_insert r uri.text _,
      by simp only [setAt, hget, Option.bind_none, Option.getD_none]⟩
  | some old =>
    cases old with
    | null =>
      exact ⟨fun fields => r.insert uri.text (.complex fields), fun _ => puts_insert r uri.text _,
        by simp only [setAt, hget, Option.bind_some, Value.complex?, Option.getD_none]⟩
    | complex fields =>
      have hthere : r.get? uri.text ≠ none := by simp [hget]
      exact ⟨fun fields => r.update uri.text (.complex fields), fun _ => puts_update hthere _,
        by simp only [setAt, hget, Option.bind_some, Value.complex?, Option.getD_some]⟩
    | _ => simp [setAt, hget] at h

/-- The elements of the attribute, if a key leads to a sub-attribute of a list. -/
def elementsAt? (r : Record) (key : Key) : Option (List Value) :=
  if key.isSub then (r.getAt? key.parent .null).bind Value.list? else none

/-- In the base the elements of a key are those of its path. -/
theorem elementsAt?_attr (r : Record) (path : Path) :
    r.elementsAt? (.attr none path) = r.elementsIn? path := by
  show (if path.isSub then ((r.get? path.attr.text).bind fun value => some value).bind Value.list?
    else none) = _
  rw [Option.bind_fun_some, elementsIn?]

/-- In an extension they are those of its path in the data. -/
theorem elementsAt?_extension (r : Record) (uri : SchemaUri) (path : Path) :
    r.elementsAt? (.attr (some uri) path) = (r.extensionData uri).elementsIn? path := by
  rw [← elementsAt?_attr]
  show (if path.isSub then (r.getAt? (.attr (some uri) path.parent) .null).bind Value.list?
    else none) = _
  rw [getAt?_extension]
  rfl

/-- A key reads back what was set by it. -/
theorem readsBack_setAt (h : r.setAt key value = (r', none)) (lacking : Value) :
    ReadsBack (r.elementsAt? key) value (r.getAt? key lacking) (r'.getAt? key lacking) := by
  cases key with
  | extension uri =>
    have hset : r.insert uri.text value = r' := by cases value <;> simp_all [setAt]
    subst hset
    exact .whole rfl (get?_insert_self r uri.text value)
  | attr within path =>
    cases within with
    -- in the base the path is set at once
    | none =>
      obtain ⟨stored, -, hback⟩ := puts_setPath h
      rw [elementsAt?_attr]
      exact hback lacking
    -- in an extension it is set in the data
    | some uri =>
      obtain ⟨fields', hfields, hputs⟩ := puts_setAt_extension h
      obtain ⟨stored, -, hback⟩ := puts_setPath hfields
      rw [elementsAt?_extension, getAt?_extension, getAt?_extension, extensionData_of_puts hputs rfl]
      exact hback lacking

/-! ## Reading elsewhere -/

/-- A key sees the entry only that it begins with. -/
theorem getAt?_congr_head (h : r'.get? key.head = r.get? key.head) (lacking : Value) :
    r'.getAt? key lacking = r.getAt? key lacking := by
  cases key with
  | extension uri => exact h
  | attr within path =>
    cases within with
    | none =>
      have hget : r'.get? path.attr.text = r.get? path.attr.text := h
      simp only [getAt?, getPath?, hget]
    | some uri =>
      have hget : r'.get? uri.text = r.get? uri.text := h
      simp only [getAt?, hget]

/-- A set puts a value under the key that its own key begins with. -/
theorem puts_setAt (h : r.setAt key value = (r', none)) : ∃ stored, Puts r r' key.head stored := by
  cases key with
  | extension uri =>
    have hset : r.insert uri.text value = r' := by cases value <;> simp_all [setAt]
    exact ⟨value, hset ▸ puts_insert r uri.text value⟩
  | attr within path =>
    cases within with
    | none =>
      obtain ⟨stored, hputs, -⟩ := puts_setPath h
      exact ⟨stored, hputs⟩
    | some uri =>
      obtain ⟨fields', -, hputs⟩ := puts_setAt_extension h
      exact ⟨_, hputs⟩

/-- Another attribute of the extension reads what it read before. -/
theorem getAt?_setAt_extension {uri uri' : SchemaUri} {other : Path}
    (h : r.setAt (.attr (some uri) path) value = (r', none)) (hsame : uri.key = uri'.key)
    (hne : path.attr.key ≠ other.attr.key) (lacking : Value) :
    r'.getAt? (.attr (some uri') other) lacking = r.getAt? (.attr (some uri') other) lacking := by
  obtain ⟨fields', hfields, hput⟩ := puts_setAt_extension h
  obtain ⟨stored, hattr, -⟩ := puts_setPath hfields
  have hbefore : r.extensionData uri' = r.extensionData uri := by
    rw [extensionData, extensionData, get?_congr hsame]
  rw [getAt?_extension, getAt?_extension, extensionData_of_puts hput hsame, hbefore]
  exact hattr.getPath?_eq hne lacking

/-- A key that leads elsewhere reads what it read before. -/
theorem getAt?_setAt_of_elsewhere {other : Key} (h : r.setAt key value = (r', none))
    (helsewhere : key.Elsewhere other) (lacking : Value) :
    r'.getAt? other lacking = r.getAt? other lacking := by
  obtain ⟨stored, hputs⟩ := puts_setAt h
  by_cases hhead : Text.lower key.head = Text.lower other.head
  · -- both keys lead into one part, to different attributes of it
    have hwithin : key.within?.map SchemaUri.key = other.within?.map SchemaUri.key :=
      Decidable.not_not.mp fun hne => Key.lower_head_ne hne hhead
    obtain ⟨_, hattr, _, hattr', hne⟩ := helsewhere.resolve_left (not_not_intro hwithin)
    obtain ⟨within, path, rfl, rfl⟩ := Key.exists_path_of_attr? hattr
    obtain ⟨within', other, rfl, rfl⟩ := Key.exists_path_of_attr? hattr'
    cases within with
    | none =>
      cases within' with
      | none => exact absurd hhead hne
      | some uri' => nomatch hwithin
    | some uri =>
      cases within' with
      | none => nomatch hwithin
      | some uri' => exact getAt?_setAt_extension h (Option.some.inj hwithin) hne lacking
  · exact getAt?_congr_head (hputs.get?_of_ne hhead) lacking

/-! ## All ways to name a key -/

/-- What a set of a record leaves behind, as it is read. -/
structure SetOnly (c : Catalog) (r r' : Record) (source : Key.Source) (key : Key) (value : Value) :
    Prop where
  /-- The value is read back.  If the key leads to a sub-attribute of a list, it was dealt out to the
      elements, and those left over read as before. -/
  readsBack : ReadsBack (r.elementsAt? key) value (r.read? c source) (r'.read? c source)
  /-- All that lies elsewhere reads as before. -/
  unchanged : ∀ other otherKey, Key.Source.key c other = .ok otherKey → key.Elsewhere otherKey →
    r'.read? c other = r.read? c other

/-- What is written is read back, and nothing else changes. -/
theorem read?_write {c : Catalog} {source : Key.Source}
    (h : r.write c source value = (r', none)) :
    ∃ key, source.key c = .ok key ∧ SetOnly c r r' source key value := by
  unfold write at h
  cases hkey : source.key c with
  | error e => simp [hkey] at h
  | ok key =>
    simp only [hkey] at h
    -- both sides name the same key
    have hread : ∀ s : Record, s.read? c source = s.getAt? key .null := by
      intro s
      rw [read?, hkey]
      rfl
    refine ⟨key, rfl, ⟨?_, fun other otherKey hother helsewhere => ?_⟩⟩
    · rw [hread, hread]
      exact readsBack_setAt h .null
    · simp only [read?, hother]
      exact getAt?_setAt_of_elsewhere h helsewhere .null

/-- A user with two addresses, of which one or both have a type. -/
def mailUser (first : Record) : Record :=
  [ ("userName", .string "kim"),
    ("emails", .list [.complex (("value", .string "a@x") :: first),
      .complex [("value", .string "b@x"), ("type", .string "home")]]) ]

/-- One type is set where there are two addresses: it is read back with the old type of the second
    address behind it. -/
theorem read?_write_mailTypes :
    write .empty (mailUser []) (.text "emails.TYPE") (.list [.string "work"]) =
        (mailUser [("TYPE", .string "work")], none) ∧
      (∃ key, Key.Source.key .empty (.text "emails.TYPE") = .ok key ∧
        SetOnly .empty (mailUser []) (mailUser [("TYPE", .string "work")]) (.text "emails.TYPE") key
          (.list [.string "work"])) ∧
      read? .empty (mailUser [("TYPE", .string "work")]) (.text "emails.TYPE") =
        some (.list [.string "work", .string "home"]) := by
  have hset : write .empty (mailUser []) (.text "emails.TYPE") (.list [.string "work"]) =
      (mailUser [("TYPE", .string "work")], none) := rfl
  exact ⟨hset, read?_write hset, rfl⟩

end Record

end Scim
