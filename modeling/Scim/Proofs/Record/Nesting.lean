import Scim.Proofs.Record.Index
import Scim.Record.Access

/-!
  # Records that are built

  A record is built from the empty one, step by step: entries are inserted and erased, and what keys
  address is set and popped, deep inside as well.  The values put in are built likewise
  (`Record.Built`, `Value.Built`).

  Each step changes a record only through the operations of one entry, at the level where its key
  leads (`WellKeyed.setAt`, `WellKeyed.popAt`), and these never make two keys that differ in case
  only.  So no record at any depth has two such keys (`Record.Built.wellKeyed`), and there each key
  finds, replaces and removes one entry at most.
-/

namespace Scim

/-! ## Records inside a value -/

/-- A record lies in a value, at any depth; a complex value holds its own fields. -/
inductive Value.Holds : Value → Record → Prop
  | self (fields : Record) : Value.Holds (.complex fields) fields
  | field {fields r : Record} {entry : String × Value} :
    entry ∈ fields → Value.Holds entry.2 r → Value.Holds (.complex fields) r
  | item {items : List Value} {r : Record} {value : Value} :
    value ∈ items → Value.Holds value r → Value.Holds (.list items) r

/-- In no record inside the value do two keys differ in case only. -/
def Value.WellKeyed (value : Value) : Prop := ∀ r, value.Holds r → r.Distinct

/-- In no record inside the record, and not in itself, do two keys differ in case only. -/
def Record.WellKeyed (r : Record) : Prop := (Value.complex r).WellKeyed

namespace Value

/-- A scalar holds no record. -/
theorem wellKeyed_of_scalar {value : Value} (hcomplex : value.complex? = none)
    (hlist : value.list? = none) : value.WellKeyed := by
  intro r hholds
  cases hholds with
  | self => simp [complex?] at hcomplex
  | field => simp [complex?] at hcomplex
  | item => simp [list?] at hlist

/-- Nor does null. -/
theorem wellKeyed_null : WellKeyed .null := wellKeyed_of_scalar rfl rfl

/-- Of a list it is asked of all items. -/
theorem wellKeyed_list_iff {items : List Value} :
    WellKeyed (.list items) ↔ ∀ value ∈ items, value.WellKeyed := by
  constructor
  · intro h value hvalue r hholds
    exact h r (.item hvalue hholds)
  · intro h r hholds
    cases hholds with
    | item hvalue hholds => exact h _ hvalue r hholds

/-- Of a record it is asked of its own keys, and of all values in it. -/
theorem wellKeyed_complex_iff {fields : Record} :
    WellKeyed (.complex fields) ↔ fields.Distinct ∧ ∀ entry ∈ fields, entry.2.WellKeyed := by
  constructor
  · intro h
    exact ⟨h fields (.self fields), fun entry hentry r hholds => h r (.field hentry hholds)⟩
  · rintro ⟨hdistinct, hfields⟩ r hholds
    cases hholds with
    | self => exact hdistinct
    | field hentry hholds => exact hfields _ hentry r hholds

end Value

namespace Record

variable {r fields : Record} {key : String} {value : Value}

/-! ## What the operations of one entry keep -/

theorem wellKeyed_nil : WellKeyed [] := Value.wellKeyed_complex_iff.mpr ⟨distinct_nil, by simp⟩

theorem WellKeyed.get? (h : r.WellKeyed) (hget : r.get? key = some value) : value.WellKeyed := by
  obtain ⟨stored, hmem⟩ := get?_mem hget
  exact (Value.wellKeyed_complex_iff.mp h).2 _ hmem

/-- Inserting a value of which it is true keeps it. -/
theorem WellKeyed.insert (h : r.WellKeyed) (key : String) (hvalue : value.WellKeyed) :
    (r.insert key value).WellKeyed := by
  obtain ⟨hdistinct, hentries⟩ := Value.wellKeyed_complex_iff.mp h
  refine Value.wellKeyed_complex_iff.mpr ⟨hdistinct.insert key value, fun entry hentry => ?_⟩
  rcases mem_insert hentry with hold | rfl
  · exact hentries entry hold
  · exact hvalue

/-- And so does writing one over what is there. -/
theorem WellKeyed.update (h : r.WellKeyed) (key : String) (hvalue : value.WellKeyed) :
    (r.update key value).WellKeyed := by
  obtain ⟨hdistinct, hentries⟩ := Value.wellKeyed_complex_iff.mp h
  refine Value.wellKeyed_complex_iff.mpr ⟨hdistinct.update key value, fun entry hentry => ?_⟩
  rcases mem_update hentry with hold | heq
  · exact hentries entry hold
  · exact heq ▸ hvalue

/-- Erasing keeps it, too. -/
theorem WellKeyed.erase (h : r.WellKeyed) (key : String) : (r.erase key).WellKeyed := by
  obtain ⟨hdistinct, hentries⟩ := Value.wellKeyed_complex_iff.mp h
  exact Value.wellKeyed_complex_iff.mpr
    ⟨hdistinct.erase key, fun entry hentry => hentries entry ((r.erase_sublist key).mem hentry)⟩

/-! ## What setting keeps -/

theorem wellKeyed_element (sub : Name) (h : value.WellKeyed) : (element sub value).WellKeyed := by
  show WellKeyed (Record.insert [] sub.text value)
  exact wellKeyed_nil.insert sub.text h

/-- Dealing out keeps it, as far as it comes. -/
theorem wellKeyed_deal {sub : Name} {conflict : String → Error} {index : Nat}
    {items values : List Value} (hitems : ∀ item ∈ items, item.WellKeyed)
    (hvalues : ∀ value ∈ values, value.WellKeyed) :
    ∀ item ∈ (deal sub conflict index items values).1, item.WellKeyed := by
  -- element by element: it gets its value, or a new element is made of it
  fun_induction deal sub conflict index items values with
  | case1 => exact hitems
  | case2 index values =>
    intro item hitem
    obtain ⟨value, hvalue, rfl⟩ := List.mem_map.mp hitem
    exact wellKeyed_element sub (hvalues value hvalue)
  | case3 index fields items value values dealt error hdealt ih =>
    obtain ⟨hfields, hrest⟩ := List.forall_mem_cons.mp hitems
    obtain ⟨hvalue, hothers⟩ := List.forall_mem_cons.mp hvalues
    rw [hdealt] at ih
    exact List.forall_mem_cons.mpr
      ⟨WellKeyed.insert hfields sub.text hvalue, ih hrest hothers⟩
  | case4 index items value values dealt error hdealt ih =>
    obtain ⟨-, hrest⟩ := List.forall_mem_cons.mp hitems
    obtain ⟨hvalue, hothers⟩ := List.forall_mem_cons.mp hvalues
    rw [hdealt] at ih
    exact List.forall_mem_cons.mpr ⟨wellKeyed_element sub hvalue, ih hrest hothers⟩
  | case5 => exact hitems

/-- Setting a sub-attribute keeps it, whether or not the set succeeds. -/
theorem WellKeyed.setSub (h : r.WellKeyed) (attr sub : Name) (hvalue : value.WellKeyed) :
    (r.setSub attr sub value).1.WellKeyed := by
  unfold Record.setSub
  dsimp only
  split
  case h_1 | h_2 =>
    -- a list of values makes a list of elements, any other value one element
    refine h.insert attr.text ?_
    split
    · refine Value.wellKeyed_list_iff.mpr fun item hitem => ?_
      obtain ⟨v, hv, rfl⟩ := List.mem_map.mp hitem
      exact wellKeyed_element sub (Value.wellKeyed_list_iff.mp hvalue v hv)
    · exact wellKeyed_element sub hvalue
  case h_3 fields hget =>
    exact h.update attr.text (WellKeyed.insert (h.get? hget) sub.text hvalue)
  case h_4 items hget =>
    split
    · exact h.update attr.text (Value.wellKeyed_list_iff.mpr
        (wellKeyed_deal (Value.wellKeyed_list_iff.mp (h.get? hget))
          (Value.wellKeyed_list_iff.mp hvalue)))
    · exact h
  case h_5 => exact h

/-- So does setting what a path leads to. -/
theorem WellKeyed.setPath (h : r.WellKeyed) (path : Path) (hvalue : value.WellKeyed) :
    (r.setPath path value).1.WellKeyed := by
  unfold Record.setPath
  split
  · exact h.insert path.attr.text hvalue
  · exact h.setSub path.attr _ hvalue

/-- So does setting what a key leads to, in an extension or not. -/
theorem WellKeyed.setAt (h : r.WellKeyed) (key : Key) (hvalue : value.WellKeyed) :
    (r.setAt key value).1.WellKeyed := by
  cases key with
  | extension uri =>
    unfold Record.setAt
    dsimp only
    split
    case h_1 | h_2 => exact h.insert uri.text hvalue
    case h_3 => exact h
  | attr within path =>
    cases within with
    | none => exact h.setPath path hvalue
    | some uri =>
      unfold Record.setAt
      dsimp only
      split
      -- the data of the extension change, or new ones are made
      case h_1 fields hget => exact h.update uri.text (WellKeyed.setPath (h.get? hget) path hvalue)
      case h_2 | h_3 => exact h.insert uri.text (wellKeyed_nil.setPath path hvalue)
      case h_4 => exact h

/-! ## What popping keeps -/

/-- It is true of what is left when a sub-attribute is taken out. -/
theorem wellKeyed_popSub (h : value.WellKeyed) (sub : Name) : (popSub value sub).2.WellKeyed := by
  unfold popSub
  split
  case h_1 fields => exact WellKeyed.erase h sub.text
  case h_2 items =>
    refine Value.wellKeyed_list_iff.mpr fun item hitem => ?_
    obtain ⟨old, hold, rfl⟩ := List.mem_map.mp hitem
    have holdKeyed := Value.wellKeyed_list_iff.mp h old hold
    split
    · exact WellKeyed.erase holdKeyed sub.text
    · exact holdKeyed
  case h_3 => exact h

/-- Popping what a path leads to keeps it. -/
theorem WellKeyed.popPath (h : r.WellKeyed) (path : Path) : (r.popPath path).2.WellKeyed := by
  unfold Record.popPath
  split
  · exact h.erase path.attr.text
  · split
    · exact h
    · rename_i value hget
      exact h.update path.attr.text (wellKeyed_popSub (h.get? hget) _)

/-- So does popping what a key leads to, in an extension or not. -/
theorem WellKeyed.popAt (h : r.WellKeyed) (key : Key) : (r.popAt key).2.WellKeyed := by
  cases key with
  | extension uri => exact h.erase uri.text
  | attr within path =>
    cases within with
    | none => exact h.popPath path
    | some uri =>
      unfold Record.popAt
      dsimp only
      split
      · -- the data of the extension are put back without what was taken out
        rename_i fields hget
        exact h.update uri.text (WellKeyed.popPath (h.get? hget) path)
      · exact h

/-! ## What a pop gives -/

/-- It is true as well of the sub-attribute that is taken out. -/
theorem wellKeyed_popSub_taken {taken : Value} {sub : Name} (h : value.WellKeyed)
    (htaken : (popSub value sub).1 = some taken) : taken.WellKeyed := by
  unfold popSub at htaken
  split at htaken
  case h_1 fields => exact WellKeyed.get? h htaken
  case h_2 items =>
    obtain rfl := Option.some.inj htaken
    refine Value.wellKeyed_list_iff.mpr fun item hitem => ?_
    obtain ⟨old, hold, rfl⟩ := List.mem_map.mp hitem
    -- an element without the sub-attribute gives a null
    cases hsub : old.complex?.bind fun fields => Record.get? fields sub.text with
    | none => exact Value.wellKeyed_null
    | some v =>
      obtain ⟨fields, hfields, hget⟩ := Option.bind_eq_some_iff.mp hsub
      obtain rfl := Value.eq_complex_of_complex? hfields
      exact WellKeyed.get? (Value.wellKeyed_list_iff.mp h _ hold) hget
  case h_3 => simp at htaken

/-- It is true of what a path has taken out. -/
theorem WellKeyed.popPath_taken {taken : Value} (h : r.WellKeyed) {path : Path}
    (htaken : (r.popPath path).1 = some taken) : taken.WellKeyed := by
  unfold Record.popPath at htaken
  split at htaken
  · exact h.get? htaken
  · split at htaken
    · simp at htaken
    · rename_i value hget
      exact wellKeyed_popSub_taken (h.get? hget) htaken

/-- And it is true of what a key has taken out. -/
theorem WellKeyed.popAt_taken {taken : Value} (h : r.WellKeyed) {key : Key}
    (htaken : (r.popAt key).1 = some taken) : taken.WellKeyed := by
  cases key with
  | extension uri => exact h.get? htaken
  | attr within path =>
    cases within with
    | none => exact h.popPath_taken htaken
    | some uri =>
      unfold Record.popAt at htaken
      dsimp only at htaken
      split at htaken
      · rename_i fields hget
        exact WellKeyed.popPath_taken (h.get? hget) htaken
      · simp at htaken

end Record

/-! ## Built step by step -/

mutual

/-- A record is made from the empty one by steps that change it. -/
inductive Record.Built : Record → Prop
  | empty : Record.Built []
  | insert {r : Record} {value : Value} (key : String) :
    Record.Built r → Value.Built value → Record.Built (r.insert key value)
  | erase {r : Record} (key : String) : Record.Built r → Record.Built (r.erase key)
  | set {r : Record} {value : Value} (key : Key) :
    Record.Built r → Value.Built value → Record.Built (r.setAt key value).1
  | pop {r : Record} (key : Key) : Record.Built r → Record.Built (r.popAt key).2

/-- A value is no record and no list, or it is made of values that are built, or it was popped. -/
inductive Value.Built : Value → Prop
  | scalar {value : Value} : value.complex? = none → value.list? = none → Value.Built value
  | complex {fields : Record} : Record.Built fields → Value.Built (.complex fields)
  | list {items : List Value} : (∀ item ∈ items, Value.Built item) → Value.Built (.list items)
  | popped {r : Record} {value : Value} (key : Key) :
    Record.Built r → (r.popAt key).1 = some value → Value.Built value

end

mutual

/-- In what is built no record has two keys that differ in case only. -/
theorem Record.Built.wellKeyed {r : Record} : Record.Built r → r.WellKeyed
  | .empty => Record.wellKeyed_nil
  | .insert key hr hvalue => hr.wellKeyed.insert key hvalue.wellKeyed
  | .erase key hr => hr.wellKeyed.erase key
  | .set key hr hvalue => hr.wellKeyed.setAt key hvalue.wellKeyed
  | .pop key hr => hr.wellKeyed.popAt key

/-- Nor has any in a value that is built. -/
theorem Value.Built.wellKeyed {value : Value} : Value.Built value → value.WellKeyed
  | .scalar hcomplex hlist => Value.wellKeyed_of_scalar hcomplex hlist
  | .complex hfields => hfields.wellKeyed
  | .list hitems => Value.wellKeyed_list_iff.mpr fun item hitem => (hitems item hitem).wellKeyed
  | .popped _ hr htaken => hr.wellKeyed.popAt_taken htaken

end

/-- In a record that is built, and in each record inside it, no two keys differ in case only: so a
    key finds, replaces and removes one entry at most, and leaves all others as and where they are.
    An index that is kept beside such a record finds the same and stays in step with every change. -/
theorem Record.Built.keyed_inside {r : Record} (built : r.Built) {s : Record}
    (inside : (Value.complex r).Holds s) :
    s.Distinct ∧ (∀ key, s.Keyed key) ∧
      (∃ kept : Indexed, kept.Follows s) ∧
      ∀ kept : Indexed, kept.Follows s → ∀ key,
        kept.get? key = s.get? key ∧
        (∀ value, (kept.insert key value).Follows (s.insert key value)) ∧
        (∀ value, (kept.update key value).Follows (s.update key value)) ∧
        (kept.erase key).Follows (s.erase key) := by
  have hdistinct := built.wellKeyed s inside
  refine ⟨hdistinct, hdistinct.keyed, Indexed.exists_follows hdistinct, fun kept hkept key => ?_⟩
  exact ⟨hkept.get?_eq key, hkept.insert key, hkept.update key, hkept.erase key⟩

namespace Record

/-- The given name that is part of a name, in the casing of `text`. -/
def givenName (text : String) (valid : Name.isValid text = true) : Key :=
  .attr none ⟨⟨"name", by decide +kernel⟩, some ⟨text, valid⟩⟩

/-- A given name written in two casings, and the key of a name that was there before it. -/
def renamed : Record :=
  (((insert [] "userName" (.string "bjensen")).setAt
    (givenName "givenName" (by decide +kernel)) (.string "Barbara")).1.setAt
    (givenName "GIVENNAME" (by decide +kernel)) (.string "Babs")).1.insert "USERNAME" .null

/-- The record is built in four steps. -/
theorem built_renamed : renamed.Built :=
  .insert _ (.set _ (.set _ (.insert _ .empty (.scalar rfl rfl)) (.scalar rfl rfl))
    (.scalar rfl rfl)) (.scalar rfl rfl)

/-- Each key is there once, in the casing it was written in last and at the place it was given
    first, and so it is in the record inside. -/
theorem keyed_renamed :
    renamed = [("USERNAME", .null), ("name", .complex [("GIVENNAME", .string "Babs")])] ∧
      renamed.Built ∧ Keyed renamed "username" ∧
      (Value.complex renamed).Holds [("GIVENNAME", .string "Babs")] ∧
      Distinct [("GIVENNAME", .string "Babs")] := by
  have heq : renamed =
      [("USERNAME", .null), ("name", .complex [("GIVENNAME", .string "Babs")])] := rfl
  have hinside : (Value.complex renamed).Holds [("GIVENNAME", .string "Babs")] := by
    rw [heq]
    exact .field (List.mem_cons_of_mem _ List.mem_cons_self) (.self _)
  exact ⟨heq, built_renamed, (Built.keyed_inside built_renamed (.self renamed)).2.1 "username", hinside,
    (Built.keyed_inside built_renamed hinside).1⟩

end Record

end Scim
