import Mathlib.Data.List.Induction
import Scim.Proofs.Record.Entries
import Scim.Record.Indexed

/-!
  # The index of a record

  A record that is kept with an index (`Indexed`) follows the plain record through every change
  (`Indexed.Follows`): it has the same entries, and its index leads from each lower-case form to the
  one key stored for it and to nothing else.  So a look-up through the index finds what passing over
  the entries would find (`Follows.get?_eq`).
-/

namespace Scim

namespace Indexed

open Record (Lacks Distinct)

variable {kept : Indexed} {r before after : Record} {key stored : String} {old value : Value}

/-! ## The ordered map, at an entry and where there is none -/

/-- A new key is put in at the end. -/
theorem put_of_not_mem {entries : Record} (h : ∀ entry ∈ entries, entry.1 ≠ key) (value : Value) :
    put entries key value = entries ++ [(key, value)] := by
  induction entries with
  | nil => rfl
  | cons entry entries ih =>
    obtain ⟨hentry, hrest⟩ := List.forall_mem_cons.mp h
    simp [put, hentry, ih hrest]

/-- The value of a key that is there is replaced at its place. -/
theorem put_append_cons (h : ∀ entry ∈ before, entry.1 ≠ key) (value : Value) :
    put (before ++ (key, old) :: after) key value = before ++ (key, value) :: after := by
  induction before with
  | nil => simp [put]
  | cons entry before ih =>
    obtain ⟨hentry, hrest⟩ := List.forall_mem_cons.mp h
    simp [put, hentry, ih hrest]

/-- A key is found where it stands, if no entry before it has the same. -/
theorem lookup_append_cons (h : ∀ entry ∈ before, entry.1 ≠ stored) :
    (before ++ (stored, old) :: after).lookup stored = some old := by
  induction before with
  | nil => simp
  | cons entry before ih =>
    obtain ⟨hentry, hrest⟩ := List.forall_mem_cons.mp h
    have hne : (stored == entry.1) = false := by simpa using hentry.symm
    rw [List.cons_append, List.lookup_cons, hne]
    exact ih hrest

/-- So is its place. -/
theorem place?_append_cons (h : ∀ entry ∈ before, entry.1 ≠ stored) :
    place? (before ++ (stored, old) :: after) stored = some before.length := by
  have hnone : before.findIdx? (fun entry => entry.1 == stored) = none := by
    simpa using h
  simp [place?, List.findIdx?_append, hnone, List.findIdx?_cons]

/-- An entry is put in at the place that its number says. -/
theorem insertIdx_append (before after : Record) (entry : String × Value) :
    (before ++ after).insertIdx before.length entry = before ++ entry :: after := by
  induction before with
  | nil => simp
  | cons first before ih => simp [ih]

/-- It is taken out at its place. -/
theorem takeOut_append_cons (h : ∀ entry ∈ before, entry.1 ≠ stored) :
    takeOut (before ++ (stored, old) :: after) stored = before ++ after := by
  rw [takeOut, List.eraseP_append_right _ (by simpa using h), List.eraseP_cons_of_pos (by simp)]

/-- Where a key is not there, nothing changes. -/
theorem change_of_not_mem {entries : Record} (h : ∀ entry ∈ entries, entry.1 ≠ stored) :
    change entries stored value = entries := by
  have hsame : ∀ entry ∈ entries,
      (if entry.1 == stored then (entry.1, value) else entry) = entry := by
    intro entry hentry
    simp [h entry hentry]
  rw [change, List.map_congr_left hsame, List.map_id']

/-- Where it is, its value does. -/
theorem change_append_cons (h : ∀ entry ∈ before ++ after, entry.1 ≠ stored) :
    change (before ++ (stored, old) :: after) stored value = before ++ (stored, value) :: after := by
  obtain ⟨hbefore, hafter⟩ := List.forall_mem_append.mp h
  have hb : change before stored value = before := change_of_not_mem hbefore
  have ha : change after stored value = after := change_of_not_mem hafter
  unfold change at hb ha ⊢
  rw [List.map_append, List.map_cons, hb, ha]
  simp

/-! ## Keeping step -/

/-- A kept record has the entries of a record, and its index leads to the key that is stored for a
    lower-case form. -/
structure Follows (kept : Indexed) (r : Record) : Prop where
  entries : kept.entries = r
  distinct : r.Distinct
  stored_iff : ∀ low stored,
    kept.index[low]? = some stored ↔ Text.lower stored = low ∧ stored ∈ r.keys

/-- An index without entries follows the empty record. -/
theorem follows_empty : empty.Follows [] where
  entries := rfl
  distinct := Record.distinct_nil
  stored_iff low stored := by simp [empty, Record.keys]

/-- Entries that lack a key hold no key equal to it, or to what is stored for it. -/
theorem ne_of_lacks (h : Lacks r key) (hhas : Text.lower stored = Text.lower key) :
    ∀ entry ∈ r, entry.1 ≠ stored :=
  fun entry hentry heq => h entry hentry (heq ▸ hhas)

/-- The index leads to the key of an entry. -/
theorem Follows.stored?_of_has (h : kept.Follows (before ++ (stored, old) :: after))
    (hhas : Text.lower stored = Text.lower key) : kept.stored? key = some stored :=
  (h.stored_iff _ _).mpr ⟨hhas, by simp [Record.keys]⟩

/-- Where there is none, it leads nowhere. -/
theorem Follows.stored?_of_lacks (h : kept.Follows r) (hlacks : Lacks r key) :
    kept.stored? key = none := by
  refine Option.eq_none_iff_forall_ne_some.mpr fun stored hstored => ?_
  obtain ⟨hhas, hmem⟩ := (h.stored_iff _ _).mp hstored
  obtain ⟨entry, hentry, rfl⟩ := List.mem_map.mp hmem
  exact hlacks entry hentry hhas

/-- A look-up through the index finds what passing over the entries finds. -/
theorem Follows.get?_eq (h : kept.Follows r) (key : String) : kept.get? key = r.get? key := by
  -- the same cases on both sides: no entry with the key, or a first one
  rcases r.lacks_or_has key with hlacks | ⟨before, stored, old, after, rfl, hlacks, hhas⟩
  · rw [Indexed.get?, h.stored?_of_lacks hlacks, Record.get?_of_lacks hlacks]
    rfl
  · rw [Indexed.get?, h.stored?_of_has hhas, h.entries, Record.get?_of_has hlacks hhas]
    exact lookup_append_cons (ne_of_lacks hlacks hhas)

/-- The index that leads to the entries around a place leads to a new key there, once it is put in. -/
theorem stored_iff_insert {index : Std.HashMap String String}
    (hothers : ∀ low stored, low ≠ Text.lower key →
      (index[low]? = some stored ↔
        Text.lower stored = low ∧ stored ∈ Record.keys (before ++ after)))
    (hlacks : Lacks (before ++ after) key) (low stored : String) :
    (index.insert (Text.lower key) key)[low]? = some stored ↔
      Text.lower stored = low ∧ stored ∈ Record.keys (before ++ (key, value) :: after) := by
  rw [Std.HashMap.getElem?_insert]
  have hmem : stored ∈ Record.keys (before ++ (key, value) :: after) ↔
      stored = key ∨ stored ∈ Record.keys (before ++ after) := by
    simp only [Record.keys, List.map_append, List.map_cons, List.mem_append, List.mem_cons]
    tauto
  rw [hmem]
  -- the index is asked for the new key, or for another one
  by_cases hlow : Text.lower key = low
  · subst hlow
    simp only [beq_self_eq_true, if_true, Option.some.injEq]
    constructor
    · rintro rfl
      exact ⟨rfl, .inl rfl⟩
    · rintro ⟨hhas, rfl | hother⟩
      · rfl
      · -- no other stored key has the lower-case form
        obtain ⟨entry, hentry, rfl⟩ := List.mem_map.mp hother
        exact absurd hhas (hlacks entry hentry)
  · rw [if_neg (by simpa using hlow), hothers low stored (Ne.symm hlow)]
    constructor
    · rintro ⟨hhas, hmem⟩
      exact ⟨hhas, .inr hmem⟩
    · rintro ⟨hhas, rfl | hmem⟩
      · exact absurd hhas hlow
      · exact ⟨hhas, hmem⟩

/-- Elsewhere than at its own lower-case form, an entry does not matter to the index. -/
theorem Follows.others_iff (h : kept.Follows (before ++ (stored, old) :: after))
    (hhas : Text.lower stored = Text.lower key) (low s : String) (hlow : low ≠ Text.lower key) :
    kept.index[low]? = some s ↔
      Text.lower s = low ∧ s ∈ Record.keys (before ++ after) := by
  rw [h.stored_iff]
  simp only [Record.keys, List.map_append, List.map_cons, List.mem_append, List.mem_cons]
  constructor
  · rintro ⟨hs, hmem | rfl | hmem⟩
    · exact ⟨hs, .inl hmem⟩
    · exact absurd (hs.symm.trans hhas) hlow
    · exact ⟨hs, .inr hmem⟩
  · rintro ⟨hs, hmem | hmem⟩
    · exact ⟨hs, .inl hmem⟩
    · exact ⟨hs, .inr (.inr hmem)⟩

/-- The index follows an insertion, in a new casing or in the old one. -/
theorem Follows.insert (h : kept.Follows r) (key : String) (value : Value) :
    (kept.insert key value).Follows (r.insert key value) := by
  have hdistinct := h.distinct.insert key value
  rcases r.lacks_or_has key with hlacks | ⟨before, stored, old, after, rfl, hlacks, hhas⟩
  · -- a new key comes last
    have hput := put_of_not_mem (ne_of_lacks hlacks rfl) value
    rw [Record.insert_of_lacks hlacks] at hdistinct ⊢
    simp only [Indexed.insert, h.stored?_of_lacks hlacks, h.entries]
    refine ⟨hput, hdistinct, ?_⟩
    refine stored_iff_insert (fun low s _ => ?_) (by simpa using hlacks)
    rw [List.append_nil]
    exact h.stored_iff low s
  · have hothers : Lacks (before ++ after) key :=
      (Record.distinct_append_cons_iff.mp h.distinct).2.congr hhas
    rw [Record.insert_of_has hlacks hhas] at hdistinct ⊢
    simp only [Indexed.insert, h.stored?_of_has hhas, h.entries]
    split
    · -- the casing stays, and with it the index
      rename_i heq
      subst heq
      refine ⟨put_append_cons (ne_of_lacks hlacks rfl) value, hdistinct, fun low s => ?_⟩
      rw [h.stored_iff]
      simp [Record.keys]
    · -- the old casing is taken out, and the new one is put in at its place
      refine ⟨?_, hdistinct, stored_iff_insert (h.others_iff hhas) hothers⟩
      rw [place?_append_cons (ne_of_lacks hlacks hhas), takeOut_append_cons (ne_of_lacks hlacks hhas)]
      exact insertIdx_append before after (key, value)

/-- It follows a change, which leaves it as it is. -/
theorem Follows.update (h : kept.Follows r) (key : String) (value : Value) :
    (kept.update key value).Follows (r.update key value) := by
  have hdistinct := h.distinct.update key value
  rcases r.lacks_or_has key with hlacks | ⟨before, stored, old, after, rfl, hlacks, hhas⟩
  · rw [Indexed.update, h.stored?_of_lacks hlacks, Record.update_of_lacks hlacks]
    exact h
  · have hothers : Lacks (before ++ after) key :=
      (Record.distinct_append_cons_iff.mp h.distinct).2.congr hhas
    rw [Record.update_of_has hlacks hhas] at hdistinct ⊢
    simp only [Indexed.update, h.stored?_of_has hhas, h.entries]
    refine ⟨change_append_cons (ne_of_lacks hothers hhas), hdistinct, fun low s => ?_⟩
    rw [h.stored_iff]
    simp [Record.keys]

/-- And it follows a removal. -/
theorem Follows.erase (h : kept.Follows r) (key : String) :
    (kept.erase key).Follows (r.erase key) := by
  have hdistinct := h.distinct.erase key
  rcases r.lacks_or_has key with hlacks | ⟨before, stored, old, after, rfl, hlacks, hhas⟩
  · rw [Indexed.erase, h.stored?_of_lacks hlacks, Record.erase_of_lacks hlacks]
    exact h
  · have hothers : Lacks (before ++ after) key :=
      (Record.distinct_append_cons_iff.mp h.distinct).2.congr hhas
    rw [Record.erase_of_has hlacks hhas] at hdistinct ⊢
    simp only [Indexed.erase, h.stored?_of_has hhas, h.entries]
    refine ⟨takeOut_append_cons (ne_of_lacks hlacks hhas), hdistinct, fun low s => ?_⟩
    rw [Std.HashMap.getElem?_erase]
    by_cases hlow : Text.lower key = low
    · -- the form leads nowhere any more, and no key is left that has it
      subst hlow
      simp only [beq_self_eq_true, if_true, reduceCtorEq, false_iff, not_and]
      intro hs hmem
      obtain ⟨entry, hentry, rfl⟩ := List.mem_map.mp hmem
      exact hothers entry hentry hs
    · rw [if_neg (by simpa using hlow)]
      exact h.others_iff hhas low s (Ne.symm hlow)

/-- Entries put in one after the other are followed by an index, if their keys differ not in case
    only. -/
theorem exists_follows (h : r.Distinct) : ∃ kept : Indexed, kept.Follows r := by
  -- on the entries in their order, each put in behind the others
  induction r using List.reverseRecOn with
  | nil => exact ⟨empty, follows_empty⟩
  | append_singleton r entry ih =>
    obtain ⟨hrest, hlacks⟩ := Record.distinct_append_cons_iff.mp h
    rw [List.append_nil] at hrest hlacks
    obtain ⟨kept, hkept⟩ := ih hrest
    refine ⟨kept.insert entry.1 entry.2, ?_⟩
    rw [← Record.insert_of_lacks hlacks]
    exact hkept.insert entry.1 entry.2

end Indexed

end Scim
