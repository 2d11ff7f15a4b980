import Mathlib.Data.List.Perm.Basic
import Scim.Proofs.Record.Corresponding
import Scim.Proofs.Record.Nesting

/-!
  # Values that differ in the order and casing of keys only

  Two values are alike (`Value.Alike`) if one becomes the other when, in each record at any depth,
  keys are written in another casing and entries are put into another order.  No record in them has
  two keys that differ in case only, as none that is built has, so on either side a key leads to one
  entry at most, and on both sides to alike values (`Record.Alike.get?`).  That is all that likeness
  asks of a value by itself (`Value.WellKeyed.alike_self`).

  Nothing else can be seen by looking a key up.  What kind a value is of, whether it is there, and
  what a key addresses is the same on both sides, up to likeness (`Record.Alike.getAt?`).
-/

namespace Scim

/-- Values that differ in the order and casing of keys only. -/
inductive Value.Alike : Value → Value → Prop
  | scalar {value : Value} (hcomplex : value.complex? = none) (hlist : value.list? = none) :
    Value.Alike value value
  | list {items items' : List Value} (h : List.Forall₂ Value.Alike items items') :
    Value.Alike (.list items) (.list items')
  /-- Each entry has its counterpart, and these stand in any order on the other side. -/
  | complex {fields others fields' : Record} (distinct : fields.Distinct)
    (keys : List.Forall₂ (fun e e' => Text.lower e.1 = Text.lower e'.1) fields others)
    (values : List.Forall₂ (fun e e' => Value.Alike e.2 e'.2) fields others)
    (order : others.Perm fields') : Value.Alike (.complex fields) (.complex fields')

/-- Records that differ in the order and casing of keys only. -/
def Record.Alike (r r' : Record) : Prop := Value.Alike (.complex r) (.complex r')

/-- Entries with the same key, up to case, and alike values. -/
def Record.EntryAlike (e e' : String × Value) : Prop :=
  Text.lower e.1 = Text.lower e'.1 ∧ e.2.Alike e'.2

/-- The answer is the same for alike values. -/
def Value.Blind {α : Type} (f : Value → α) : Prop := ∀ {v v' : Value}, v.Alike v' → f v = f v'

/-- Alike values become alike values. -/
def Value.KeepsAlike (f : Value → Value) : Prop := ∀ {v v' : Value}, v.Alike v' → (f v).Alike (f v')

/-! ## Keys of alike records -/

namespace Record

variable {r r' : Record}

/-- In a record without keys that differ in case only, the value of every entry is found. -/
theorem Distinct.get?_eq_some_iff (h : r.Distinct) {key : String} {value : Value} :
    r.get? key = some value ↔ value ∈ r.values key := by
  rw [mem_values]
  -- one entry has the key, or none has
  cases h.keyed key with
  | found before after stored old place has others get insert erase =>
    rw [get, place, Option.some.injEq]
    constructor
    · rintro rfl
      exact ⟨(stored, old), by simp, sameKey_iff.mpr has, rfl⟩
    · rintro ⟨entry, hmem, hsame, rfl⟩
      rcases List.mem_append.mp hmem with hbefore | hmem
      · exact absurd (sameKey_iff.mp hsame) (others entry (List.mem_append_left _ hbefore))
      · rcases List.mem_cons.mp hmem with rfl | hafter
        · rfl
        · exact absurd (sameKey_iff.mp hsame) (others entry (List.mem_append_right _ hafter))
  | lacking lacks get insert erase =>
    rw [get]
    refine iff_of_false (by simp) ?_
    rintro ⟨entry, hmem, hsame, -⟩
    exact lacks entry hmem (sameKey_iff.mp hsame)

/-- An entry is found under its own key. -/
theorem Distinct.get?_of_mem (h : r.Distinct) {entry : String × Value} (hentry : entry ∈ r) :
    r.get? entry.1 = some entry.2 :=
  h.get?_eq_some_iff.mpr (mem_values.mpr ⟨entry, hentry, sameKey_iff.mpr rfl, rfl⟩)

theorem Distinct.perm (h : r.Distinct) (hperm : r.Perm r') : r'.Distinct := by
  unfold Distinct at h ⊢
  exact (hperm.map _).nodup_iff.mp h

/-- The order of entries makes no difference to a key. -/
theorem Distinct.get?_perm (h : r.Distinct) (hperm : r.Perm r') (key : String) :
    r.get? key = r'.get? key := by
  refine Option.ext fun value => ?_
  rw [h.get?_eq_some_iff, (h.perm hperm).get?_eq_some_iff, mem_values, mem_values]
  exact exists_congr fun entry => and_congr_left fun _ => hperm.mem_iff

/-- Entries that are alike in their order have the same keys, up to case. -/
theorem map_lower_eq (h : List.Forall₂ EntryAlike r r') :
    (r.map fun e => Text.lower e.1) = r'.map fun e => Text.lower e.1 := by
  induction h with
  | nil => rfl
  | cons hentry _ ih => rw [List.map_cons, List.map_cons, hentry.1, ih]

/-- Where each entry has its counterpart at its own place, a key leads to alike values. -/
theorem rel_get?_of_forall₂ (h : List.Forall₂ EntryAlike r r') (key : String) :
    Option.Rel Value.Alike (r.get? key) (r'.get? key) := by
  -- a key passes over an entry on both sides, or over none
  induction h with
  | nil => exact .none
  | @cons e e' _ _ hentry _ ih =>
    have hsame : sameKey e.1 key = sameKey e'.1 key := by rw [sameKey, sameKey, hentry.1]
    simp only [get?, hsame]
    split
    · exact .some hentry.2
    · exact ih

/-- Records are alike if one becomes the other by replacing each entry by an alike one, and then
    rearranging them. -/
theorem alike_iff : r.Alike r' ↔ r.Distinct ∧
    ∃ others, List.Forall₂ EntryAlike r others ∧ others.Perm r' := by
  constructor
  · intro h
    cases h with
    | scalar hcomplex _ => simp [Value.complex?] at hcomplex
    | complex distinct keys values order =>
      exact ⟨distinct, _, keys.mp (fun _ _ hkey hvalue => ⟨hkey, hvalue⟩) values, order⟩
  · rintro ⟨hdistinct, others, hentries, horder⟩
    exact .complex hdistinct (hentries.imp fun _ _ h => h.1) (hentries.imp fun _ _ h => h.2) horder

/-- Entries made from a list that has no key twice, each under the key it is made from. -/
theorem distinct_filterMap {α : Type} {list : List α} {key : α → String}
    {f : α → Option (String × Value)} (hnodup : (list.map key).Nodup)
    (hkey : ∀ a ∈ list, ∀ entry ∈ f a, Text.lower entry.1 = key a) :
    Distinct (list.filterMap f) := by
  -- on the list: no member behind the first makes an entry with its key
  induction list with
  | nil => exact distinct_nil
  | cons a list ih =>
    rw [List.map_cons, List.nodup_cons] at hnodup
    have hrest := ih hnodup.2 fun b hb => hkey b (List.mem_cons_of_mem a hb)
    cases hentry : f a with
    | none => rwa [List.filterMap_cons_none hentry]
    | some entry =>
      rw [List.filterMap_cons_some hentry]
      refine List.nodup_cons.mpr ⟨fun hmem => ?_, hrest⟩
      obtain ⟨other, hother, heq⟩ := List.mem_map.mp hmem
      -- another entry with the key would be made from a member with the key
      obtain ⟨b, hb, hmade⟩ := List.mem_filterMap.mp hother
      have hsame := heq.trans (hkey a List.mem_cons_self entry hentry)
      exact hnodup.1 (List.mem_map.mpr
        ⟨b, hb, (hkey b (List.mem_cons_of_mem a hb) other hmade).symm.trans hsame⟩)

/-- Records whose entries are alike in their order. -/
theorem alike_of_forall₂ (hdistinct : r.Distinct) (h : List.Forall₂ EntryAlike r r') : r.Alike r' :=
  alike_iff.mpr ⟨hdistinct, r', h, .refl r'⟩

theorem alike_nil : Alike [] [] := alike_of_forall₂ distinct_nil .nil

/-- In alike records a key leads to alike values. -/
theorem Alike.get? (h : r.Alike r') (key : String) :
    Option.Rel Value.Alike (r.get? key) (r'.get? key) := by
  obtain ⟨hdistinct, others, hentries, horder⟩ := alike_iff.mp h
  have hothers : Distinct others := by rwa [Distinct, ← map_lower_eq hentries]
  rw [← hothers.get?_perm horder key]
  exact rel_get?_of_forall₂ hentries key

/-- Each entry has an alike value under its key on the other side. -/
theorem Alike.exists_of_mem (h : r.Alike r') {entry : String × Value} (hentry : entry ∈ r) :
    ∃ value, r'.get? entry.1 = some value ∧ entry.2.Alike value := by
  have hstored := (alike_iff.mp h).1.get?_of_mem hentry
  rcases (h.get? entry.1).none_or_some with ⟨hnone, -⟩ | ⟨value, value', hget, hget', halike⟩
  · nomatch hstored.symm.trans hnone
  · obtain rfl := Option.some.inj (hget.symm.trans hstored)
    exact ⟨value', hget', halike⟩

/-- A record that is alike to another has no two keys either that differ in case only. -/
theorem Alike.distinct_right (h : r.Alike r') : r'.Distinct := by
  obtain ⟨hdistinct, others, hentries, horder⟩ := alike_iff.mp h
  have hothers : Distinct others := by rwa [Distinct, ← map_lower_eq hentries]
  exact hothers.perm horder

/-- Alike records have as many entries. -/
theorem Alike.length_eq (h : r.Alike r') : r.length = r'.length := by
  obtain ⟨-, others, hentries, horder⟩ := alike_iff.mp h
  exact hentries.length_eq.trans horder.length_eq

theorem Alike.isEmpty_eq (h : r.Alike r') : r.isEmpty = r'.isEmpty := by
  rw [Bool.eq_iff_iff, List.isEmpty_iff_length_eq_zero, List.isEmpty_iff_length_eq_zero,
    h.length_eq]

end Record

/-! ## What alike values have in common -/

/-- Alike values are the same scalar, alike lists or alike records. -/
@[cases_eliminator]
theorem Value.Alike.shapes {motive : (v v' : Value) → v.Alike v' → Prop}
    (null : motive .null .null (.scalar rfl rfl))
    (boolean : ∀ b, motive (.boolean b) (.boolean b) (.scalar rfl rfl))
    (integer : ∀ n, motive (.integer n) (.integer n) (.scalar rfl rfl))
    (decimal : ∀ d, motive (.decimal d) (.decimal d) (.scalar rfl rfl))
    (string : ∀ s, motive (.string s) (.string s) (.scalar rfl rfl))
    (dateTime : ∀ t, motive (.dateTime t) (.dateTime t) (.scalar rfl rfl))
    (list : ∀ {items items' : List Value} (h : List.Forall₂ Value.Alike items items'),
      motive (.list items) (.list items') (.list h))
    (complex : ∀ {fields fields' : Record} (h : fields.Alike fields'),
      motive (.complex fields) (.complex fields') h)
    {v v' : Value} (h : v.Alike v') : motive v v' h := by
  cases h using Value.Alike.casesOn with
  | scalar hcomplex hlist =>
    cases v with
    | null => exact null
    | boolean b => exact boolean b
    | integer n => exact integer n
    | decimal d => exact decimal d
    | string s => exact string s
    | dateTime t => exact dateTime t
    | complex => simp [Value.complex?] at hcomplex
    | list => simp [Value.list?] at hlist
  | list h => exact list h
  | complex distinct keys values order => exact complex (.complex distinct keys values order)

namespace Value

variable {v v' : Value}

/-- Each item of a list has an alike one on the other side. -/
theorem exists_of_mem_forall₂ {items items' : List Value} (h : List.Forall₂ Alike items items')
    {item : Value} (hitem : item ∈ items) : ∃ item', item.Alike item' := by
  induction h with
  | nil => nomatch hitem
  | cons hhead _ ih =>
    rcases List.mem_cons.mp hitem with rfl | hitem
    · exact ⟨_, hhead⟩
    · exact ih hitem

/-- What is built without keys that differ in case only is alike to itself. -/
theorem WellKeyed.alike_self {v : Value} (h : v.WellKeyed) : v.Alike v := by
  cases v with
  | list items =>
    refine .list (List.forall₂_same.mpr fun item hitem => ?_)
    -- items and fields are smaller than the value, which is what the recursion is on
    have hsize : sizeOf item < sizeOf (Value.list items) := by
      have hlt := List.sizeOf_lt_of_mem hitem
      simp only [Value.list.sizeOf_spec]
      omega
    exact (wellKeyed_list_iff.mp h item hitem).alike_self
  | complex fields =>
    have ⟨hdistinct, hentries⟩ := wellKeyed_complex_iff.mp h
    refine .complex hdistinct (List.forall₂_same.mpr fun _ _ => rfl)
      (List.forall₂_same.mpr fun (key, value) hentry => ?_) (.refl fields)
    have hsize : sizeOf value < sizeOf (Value.complex fields) := by
      have hlt := List.sizeOf_lt_of_mem hentry
      simp only [Value.complex.sizeOf_spec, Prod.mk.sizeOf_spec] at hlt ⊢
      omega
    exact (hentries _ hentry).alike_self
  | _ => exact .scalar rfl rfl
termination_by sizeOf v

/-- Likeness is for values without keys that differ in case only. -/
theorem Alike.wellKeyed (h : v.Alike v') : v.WellKeyed := by
  intro r hholds
  -- down to the record inside, and along with it on the other side
  induction hholds generalizing v' with
  | self fields =>
    cases h with
    | complex h => exact (Record.alike_iff.mp h).1
  | field hentry _ ih =>
    cases h with
    | complex h =>
      obtain ⟨value, -, halike⟩ := h.exists_of_mem hentry
      exact ih halike
  | item hitem _ ih =>
    cases h with
    | list h =>
      obtain ⟨item', halike⟩ := exists_of_mem_forall₂ h hitem
      exact ih halike

theorem alike_null : Alike .null .null := .scalar rfl rfl

/-- Alike values are both null or not. -/
theorem Alike.isNull_eq (h : v.Alike v') : v.isNull = v'.isNull := by cases h <;> rfl

/-- They are both there or not. -/
theorem Alike.isPresent_eq (h : v.Alike v') : v.isPresent = v'.isPresent := by
  cases h with
  | list h => cases h <;> rfl
  | complex h => simp only [isPresent, h.isEmpty_eq]
  | _ => rfl

/-- And they are records both, or neither is. -/
theorem Alike.complex? (h : v.Alike v') : Option.Rel Record.Alike v.complex? v'.complex? := by
  cases h with
  | complex h => exact .some h
  | _ => exact .none

end Value

/-! ## Reading alike records -/

/-- Likeness goes by parts. -/
theorem Value.byParts_alike : Value.ByParts Value.Alike where
  down h := by
    cases h with
    | list h => exact .list h
    | complex h => exact .complex h.get?
    | _ => exact .scalar rfl rfl rfl rfl
  up h := .list h

namespace Record

variable {r r' : Record}

/-- An entry is alike to its counterpart, also where both are missing. -/
theorem Alike.getD (h : r.Alike r') (key : String) : (r.getD key).Alike (r'.getD key) :=
  (h.get? key).getD Value.alike_null

/-- What a key addresses in alike records is alike. -/
theorem Alike.getAt? (h : r.Alike r') (key : Key) {lacking : Value}
    (hlacking : lacking.Alike lacking) :
    Option.Rel Value.Alike (r.getAt? key lacking) (r'.getAt? key lacking) :=
  Corresponds.getAt? h.get? Value.byParts_alike key hlacking

end Record

end Scim
