import Mathlib.Data.List.Nodup
import Scim.Value.Basic

/-!
  # Entries of a record

  A key leads to the first entry that has it, in whatever casing: every operation passes over the
  entries before (`get?_append`, `insert_append`, `erase_append`, `update_append`) and then acts on
  that entry, or at the end.  A record in which no two keys differ in case only (`Distinct`) has one
  such entry at most, so that there nothing else is touched (`Distinct.keyed`); and no operation
  makes a second one.
-/

namespace Scim

/-- A value with fields is the record of them. -/
theorem Value.eq_complex_of_complex? {value : Value} {fields : Record}
    (h : value.complex? = some fields) : value = .complex fields := by
  cases value with
  | complex fields => rw [Option.some.inj h]
  | _ => simp [complex?] at h

namespace Record

variable {r before after : Record} {key stored : String} {old value : Value}

/-! ## Keys -/

/-- Keys are the same if their lower-case forms are equal. -/
theorem sameKey_iff {a b : String} : sameKey a b = true ↔ Text.lower a = Text.lower b := by
  simp [sameKey]

/-- A key is looked up in any casing. -/
theorem get?_congr {a b : String} (h : Text.lower a = Text.lower b) (r : Record) :
    r.get? a = r.get? b := by
  induction r with
  | nil => rfl
  | cons entry rest ih =>
    obtain ⟨stored, value⟩ := entry
    have hsame : sameKey stored a = sameKey stored b := by simp only [sameKey, h]
    rw [get?, get?, hsame, ih]

/-- A record that is looked up is there. -/
theorem getD_eq_complex_iff {key : String} {fields : Record} :
    r.getD key = .complex fields ↔ r.get? key = some (.complex fields) := by
  unfold getD
  cases r.get? key <;> simp

/-- Null is looked up just if there is nothing else. -/
theorem getD_eq_null_iff {key : String} :
    r.getD key = .null ↔ ∀ value, r.get? key = some value → value = .null := by
  unfold getD
  cases r.get? key <;> simp

/-- An entry that is not there counts as null. -/
theorem getD_of_map {r' : Record} {key : String} {f : Value → Value} (hnull : f .null = .null)
    (h : r'.get? key = (r.get? key).map f) : r'.getD key = f (r.getD key) := by
  unfold getD
  rw [h]
  cases r.get? key with
  | none => exact hnull.symm
  | some value => rfl

/-- All values under a key, in whatever casing. -/
def values (r : Record) (key : String) : List Value :=
  (r.filter fun entry => sameKey entry.1 key).map (·.2)

/-- The values under a key are those of all entries that have it. -/
theorem mem_values {r : Record} {key : String} {value : Value} :
    value ∈ r.values key ↔ ∃ entry ∈ r, sameKey entry.1 key = true ∧ entry.2 = value := by
  simp only [values, List.mem_map, List.mem_filter, and_assoc]

theorem values_append (r r' : Record) (key : String) :
    values (r ++ r') key = r.values key ++ r'.values key := by
  simp only [values, List.filter_append, List.map_append]

/-- No entry has the key, in whatever casing. -/
def Lacks (r : Record) (key : String) : Prop := ∀ entry ∈ r, Text.lower entry.1 ≠ Text.lower key

/-- A record lacks a key, or it has a first entry with the key. -/
theorem lacks_or_has (r : Record) (key : String) :
    r.Lacks key ∨ ∃ before stored old after, r = before ++ (stored, old) :: after ∧
      Lacks before key ∧ Text.lower stored = Text.lower key := by
  induction r with
  | nil => exact .inl (by simp [Lacks])
  | cons entry r ih =>
    -- the entry has the key, or the search goes on behind it
    by_cases hentry : Text.lower entry.1 = Text.lower key
    · exact .inr ⟨[], entry.1, entry.2, r, rfl, by simp [Lacks], hentry⟩
    · rcases ih with hlacks | ⟨before, stored, old, after, rfl, hlacks, hhas⟩
      · exact .inl (List.forall_mem_cons.mpr ⟨hentry, hlacks⟩)
      · exact .inr ⟨entry :: before, stored, old, after, rfl,
          List.forall_mem_cons.mpr ⟨hentry, hlacks⟩, hhas⟩

/-! ## Passing over entries without the key -/

/-- A look-up passes over entries without the key. -/
theorem get?_append (h : Lacks before key) (r : Record) : get? (before ++ r) key = get? r key := by
  induction before with
  | nil => rfl
  | cons entry before ih =>
    obtain ⟨hentry, hrest⟩ := List.forall_mem_cons.mp h
    simp [get?, sameKey, hentry, ih hrest]

/-- So does an insertion. -/
theorem insert_append (h : Lacks before key) (r : Record) (value : Value) :
    insert (before ++ r) key value = before ++ insert r key value := by
  induction before with
  | nil => rfl
  | cons entry before ih =>
    obtain ⟨hentry, hrest⟩ := List.forall_mem_cons.mp h
    simp [insert, sameKey, hentry, ih hrest]

/-- So does a change. -/
theorem update_append (h : Lacks before key) (r : Record) (value : Value) :
    update (before ++ r) key value = before ++ update r key value := by
  induction before with
  | nil => rfl
  | cons entry before ih =>
    obtain ⟨hentry, hrest⟩ := List.forall_mem_cons.mp h
    simp [update, sameKey, hentry, ih hrest]

/-- And so does a removal. -/
theorem erase_append (h : Lacks before key) (r : Record) :
    erase (before ++ r) key = before ++ erase r key := by
  induction before with
  | nil => rfl
  | cons entry before ih =>
    obtain ⟨hentry, hrest⟩ := List.forall_mem_cons.mp h
    simp [erase, sameKey, hentry, ih hrest]

/-! ## The first entry with the key -/

/-- The first entry with the key is the one that is found. -/
theorem get?_of_has (h : Lacks before key) (hhas : Text.lower stored = Text.lower key) :
    get? (before ++ (stored, old) :: after) key = some old := by
  rw [get?_append h, get?, if_pos (sameKey_iff.mpr hhas)]

/-- An insertion replaces it, and gives it the new casing. -/
theorem insert_of_has (h : Lacks before key) (hhas : Text.lower stored = Text.lower key) :
    insert (before ++ (stored, old) :: after) key value = before ++ (key, value) :: after := by
  rw [insert_append h, insert, if_pos (sameKey_iff.mpr hhas)]

theorem update_of_has (h : Lacks before key) (hhas : Text.lower stored = Text.lower key) :
    update (before ++ (stored, old) :: after) key value = before ++ (stored, value) :: after := by
  rw [update_append h, update, if_pos (sameKey_iff.mpr hhas)]

/-- A removal takes it out, and leaves all others. -/
theorem erase_of_has (h : Lacks before key) (hhas : Text.lower stored = Text.lower key) :
    erase (before ++ (stored, old) :: after) key = before ++ after := by
  rw [erase_append h, erase, if_pos (sameKey_iff.mpr hhas)]

theorem get?_of_lacks (h : r.Lacks key) : r.get? key = none := by
  simpa [get?] using get?_append h []

/-- What is inserted comes last then. -/
theorem insert_of_lacks (h : r.Lacks key) : r.insert key value = r ++ [(key, value)] := by
  simpa [insert] using insert_append h [] value

/-- Without such an entry nothing is changed. -/
theorem update_of_lacks (h : r.Lacks key) : r.update key value = r := by
  simpa [update] using update_append h [] value

theorem erase_of_lacks (h : r.Lacks key) : r.erase key = r := by
  simpa [erase] using erase_append h []

/-! ## What is in a record afterwards -/

/-- What is found is one of the values under the key. -/
theorem mem_values_of_get? (h : r.get? key = some value) : value ∈ r.values key := by
  rcases r.lacks_or_has key with hlacks | ⟨before, stored, old, after, rfl, hlacks, hhas⟩
  · rw [get?_of_lacks hlacks] at h
    simp at h
  · obtain rfl : old = value := by simpa [get?_of_has hlacks hhas] using h
    exact mem_values.mpr ⟨(stored, old), by simp, sameKey_iff.mpr hhas, rfl⟩

theorem get?_mem (h : r.get? key = some value) : ∃ stored, (stored, value) ∈ r := by
  obtain ⟨entry, hmem, -, rfl⟩ := mem_values.mp (mem_values_of_get? h)
  exact ⟨entry.1, hmem⟩

/-- What is there was put there. -/
theorem get?_of_isPresent (h : (r.getD key).isPresent = true) : r.get? key = some (r.getD key) := by
  unfold getD at h ⊢
  cases hget : r.get? key with
  | none => simp [hget, Value.isPresent] at h
  | some value => rfl

/-- An insertion brings in nothing but the new entry. -/
theorem mem_insert {entry : String × Value} (h : entry ∈ r.insert key value) :
    entry ∈ r ∨ entry = (key, value) := by
  rcases r.lacks_or_has key with hlacks | ⟨before, stored, old, after, rfl, hlacks, hhas⟩
  · simpa [insert_of_lacks hlacks] using h
  · rw [insert_of_has hlacks hhas] at h
    simp only [List.mem_append, List.mem_cons] at h ⊢
    tauto

/-- A change brings in nothing but the new value. -/
theorem mem_update {entry : String × Value} (h : entry ∈ r.update key value) :
    entry ∈ r ∨ entry.2 = value := by
  rcases r.lacks_or_has key with hlacks | ⟨before, stored, old, after, rfl, hlacks, hhas⟩
  · exact .inl (by simpa [update_of_lacks hlacks] using h)
  · rw [update_of_has hlacks hhas] at h
    simp only [List.mem_append, List.mem_cons] at h ⊢
    rcases h with h | rfl | h
    · exact .inl (.inl h)
    · exact .inr rfl
    · exact .inl (.inr (.inr h))

/-- A removal leaves entries that were there, in their order. -/
theorem erase_sublist (r : Record) (key : String) : (r.erase key).Sublist r := by
  rcases r.lacks_or_has key with hlacks | ⟨before, stored, old, after, rfl, hlacks, hhas⟩
  · rw [erase_of_lacks hlacks]
  · rw [erase_of_has hlacks hhas]
    exact List.Sublist.append_left (List.sublist_cons_self _ _) before

/-- Writing back what is there changes nothing, and writing anything else does. -/
theorem update_eq_self_iff (h : r.get? key = some old) : r.update key value = r ↔ value = old := by
  rcases r.lacks_or_has key with hlacks | ⟨before, stored, old', after, rfl, hlacks, hhas⟩
  · rw [get?_of_lacks hlacks] at h
    simp at h
  · -- the entry that is changed is the one that was found
    obtain rfl : old' = old := by simpa [get?_of_has hlacks hhas] using h
    simp [update_of_has hlacks hhas]

/-! ## Keys that differ not in case only -/

instance (r : Record) : Decidable r.Distinct := inferInstanceAs (Decidable (List.Nodup _))

theorem distinct_nil : Distinct [] := List.nodup_nil

/-- No other entry has the key of one. -/
theorem distinct_append_cons_iff : Distinct (before ++ (stored, old) :: after) ↔
    Distinct (before ++ after) ∧ Lacks (before ++ after) stored := by
  simp only [Distinct, Lacks, List.map_append, List.map_cons]
  -- the entry may as well stand in front of the others
  rw [List.perm_middle.nodup_iff, List.nodup_cons, and_comm, ← List.map_append, List.mem_map]
  simp only [not_exists, not_and, ne_eq]

/-- What lacks a key lacks it in any casing. -/
theorem Lacks.congr {key' : String} (h : r.Lacks key) (hkey : Text.lower key = Text.lower key') :
    r.Lacks key' := fun entry hentry => hkey ▸ h entry hentry

/-- No insertion makes a second entry with a key. -/
theorem Distinct.insert (h : r.Distinct) (key : String) (value : Value) :
    (r.insert key value).Distinct := by
  rcases r.lacks_or_has key with hlacks | ⟨before, stored, old, after, rfl, hlacks, hhas⟩
  · rw [insert_of_lacks hlacks, distinct_append_cons_iff, List.append_nil]
    exact ⟨h, hlacks⟩
  · -- the new casing is as far from the other keys as the old one
    obtain ⟨hrest, hothers⟩ := distinct_append_cons_iff.mp h
    rw [insert_of_has hlacks hhas, distinct_append_cons_iff]
    exact ⟨hrest, hothers.congr hhas⟩

/-- Nor does a change. -/
theorem Distinct.update (h : r.Distinct) (key : String) (value : Value) :
    (r.update key value).Distinct := by
  rcases r.lacks_or_has key with hlacks | ⟨before, stored, old, after, rfl, hlacks, hhas⟩
  · rwa [update_of_lacks hlacks]
  · rw [update_of_has hlacks hhas, distinct_append_cons_iff]
    exact distinct_append_cons_iff.mp h

/-- Nor does a removal. -/
theorem Distinct.erase (h : r.Distinct) (key : String) : (r.erase key).Distinct :=
  List.Nodup.sublist ((r.erase_sublist key).map _) h

/-- One entry of a record has a key, or none has it; and the operations with the key find, replace
    and remove this entry, or append one, and leave all others as they are and where they are. -/
inductive Keyed (r : Record) (key : String) : Prop
  | found (before after : Record) (stored : String) (old : Value)
      (place : r = before ++ (stored, old) :: after)
      (has : Text.lower stored = Text.lower key)
      (others : Lacks (before ++ after) key)
      (get : r.get? key = some old)
      (insert : ∀ value, r.insert key value = before ++ (key, value) :: after)
      (erase : r.erase key = before ++ after)
  | lacking
      (lacks : r.Lacks key)
      (get : r.get? key = none)
      (insert : ∀ value, r.insert key value = r ++ [(key, value)])
      (erase : r.erase key = r)

/-- So each key finds, replaces and removes one entry at most. -/
theorem Distinct.keyed (h : r.Distinct) (key : String) : r.Keyed key := by
  rcases r.lacks_or_has key with hlacks | ⟨before, stored, old, after, rfl, hlacks, hhas⟩
  · exact .lacking hlacks (get?_of_lacks hlacks) (fun _ => insert_of_lacks hlacks)
      (erase_of_lacks hlacks)
  · exact .found before after stored old rfl hhas ((distinct_append_cons_iff.mp h).2.congr hhas)
      (get?_of_has hlacks hhas) (fun _ => insert_of_has hlacks hhas) (erase_of_has hlacks hhas)

end Record

end Scim
