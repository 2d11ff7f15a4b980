import Mathlib.Data.List.Induction
import Scim.Proofs.Value.Congruence
import Scim.Proofs.Value.Plain

/-!
  # Nothing is lost between values and JSON

  Both ways round, the scalars come back one by one, and nothing can go wrong but the members of
  objects.  From a value, through JSON and back, the entries are put in another order, which
  equality does not see.  From JSON, through a value and back, the members are sorted twice: sorting
  what is sorted changes nothing (`Json.sortMembers_eq_self`).

  An object can have keys that differ in case only, and a record cannot.  What becomes of those is
  said of one member more (`Record.Collects.insert`): it takes the place of the first member with
  its key and leaves nothing else of it.
-/

namespace Scim

/-! ## Members in their order -/

namespace Json

variable {α : Type} {key : String} {value : α} {members : List (String × α)}

/-- A member whose key comes after all others is put at the end. -/
theorem insertMember_of_lt (h : ∀ member ∈ members, member.1 < key) :
    insertMember key value members = members ++ [(key, value)] := by
  induction members with
  | nil => rfl
  | cons member members ih =>
    obtain ⟨hmember, hmembers⟩ := List.forall_mem_cons.mp h
    have hne : key ≠ member.1 := fun heq => String.lt_irrefl key (by rwa [← heq] at hmember)
    have hnot : ¬ key < member.1 := String.lt_asymm hmember
    rw [insertMember, if_neg hne, if_neg hnot, ih hmembers, List.cons_append]

/-- Members that are sorted stay as they are. -/
theorem sortMembers_eq_self (h : members.Pairwise fun m m' => m.1 < m'.1) :
    sortMembers members = members := by
  -- on the members in their order, of which the last one is put in last
  induction members using List.reverseRecOn with
  | nil => rfl
  | append_singleton members member ih =>
    obtain ⟨hmembers, -, hlast⟩ := List.pairwise_append.mp h
    have hsorted : sortMembers (members ++ [member]) =
        insertMember member.1 member.2 (sortMembers members) := by
      rw [sortMembers, List.foldl_append]
      rfl
    rw [hsorted, ih hmembers, insertMember_of_lt]
    intro other hother
    exact hlast other hother member List.mem_cons_self

/-- A JSON value with numbers that a value holds as what they are, and without an object with keys
    that differ in case only.  The members of objects are in the order in which JSON keeps them, and
    decimals are finite, as all numbers of JSON are. -/
inductive FitsValue : Json → Prop
  | null : FitsValue .null
  | bool (b : Bool) : FitsValue (.bool b)
  | integer {n : Int} (hlow : Int64.minValue.toInt ≤ n) (hhigh : n ≤ Int64.maxValue.toInt) :
    FitsValue (.integer n)
  | decimal {d : Decimal} (hfinite : d.isFinite = true) : FitsValue (.decimal d)
  | string (s : String) : FitsValue (.string s)
  | array {items : List Json} (h : ∀ item ∈ items, FitsValue item) : FitsValue (.array items)
  | object {members : List (String × Json)} (hsorted : members.Pairwise fun m m' => m.1 < m'.1)
    (hdistinct : (members.map fun m => Text.lower m.1).Nodup)
    (h : ∀ m ∈ members, FitsValue m.2) : FitsValue (.object members)

end Json

/-! ## From JSON and back -/

/-- Items are written back one by one. -/
theorem Value.toJsonItems_ofJsonItems (items : List Json) :
    toJsonItems (ofJsonItems items) = items.map fun item => (ofJson item).toJson := by
  induction items with
  | nil => rfl
  | cons item items ih => rw [ofJsonItems, toJsonItems, ih, List.map_cons]

/-- JSON that is read as a value is written as the same JSON. -/
theorem Json.FitsValue.toJson_ofJson {j : Json} (h : j.FitsValue) :
    (Value.ofJson j).toJson = j := by
  -- on the JSON that a value can hold
  induction h with
  | null | bool | string => rfl
  | @integer n hlow hhigh =>
    have hread : Value.ofJson (.integer n) = .integer (Int64.ofInt n) := by
      rw [Value.ofJson, Value.ofInt, Value.ofInt?, if_pos ⟨hlow, hhigh⟩]
    have hmax : Int64.maxValue.toInt = 9223372036854775807 := rfl
    rw [hread, Value.toJson, Int64.toInt_ofInt_of_le hlow (by omega)]
  | @decimal d hfinite =>
    show Json.ofDecimal d = .decimal d
    rw [Json.ofDecimal, if_pos hfinite]
  | @array items _ ih =>
    show Json.array (Value.toJsonItems (Value.ofJsonItems items)) = .array items
    rw [Value.toJsonItems_ofJsonItems, List.map_congr_left ih, List.map_id']
  | @object members hsorted hdistinct _ ih =>
    have hread : Record.ofMembersFrom [] members =
        members.map fun m => (m.1, Value.ofJson m.2) := by
      rw [Record.ofMembersFrom_eq_append (by rwa [List.map_nil, List.append_nil]),
        List.nil_append]
    have hback : Record.toMembers (members.map fun m => (m.1, Value.ofJson m.2)) = members := by
      rw [Record.toMembers_eq_map, List.map_map]
      calc members.map (fun m => (m.1, (Value.ofJson m.2).toJson))
        _ = members.map fun m => m := List.map_congr_left fun m hm => by rw [ih m hm]
        _ = members := List.map_id' members
    show Json.object (Json.sortMembers (Record.toMembers (Record.ofMembersFrom [] members))) =
      .object members
    rw [hread, hback, Json.sortMembers_eq_self hsorted]

/-! ## Keys that differ in case only -/

namespace Record

variable {r : Record} {members : List (String × Json)} {key : String} {value : Value}

/-- An insertion adds its key if it is new, and keeps the place of the key if it is not. -/
theorem lowerKeys_insert : (r.insert key value).lowerKeys =
    if Text.lower key ∈ r.lowerKeys then r.lowerKeys else r.lowerKeys ++ [Text.lower key] := by
  rcases r.lacks_or_has key with hlacks | ⟨before, stored, old, after, rfl, hlacks, hhas⟩
  · have hfresh : Text.lower key ∉ r.lowerKeys := by
      rw [← get?_eq_none_iff]
      exact get?_of_lacks hlacks
    rw [if_neg hfresh, insert_of_lacks hlacks, lowerKeys, List.map_append]
    rfl
  · have hstored : Text.lower key ∈ lowerKeys (before ++ (stored, old) :: after) := by
      simp [lowerKeys, hhas]
    rw [if_pos hstored, insert_of_has hlacks hhas]
    simp [lowerKeys, hhas]

/-- A new entry replaces the one with its key. -/
theorem Distinct.mem_insert_iff (h : r.Distinct) {entry : String × Value} :
    entry ∈ r.insert key value ↔
      entry = (key, value) ∨ entry ∈ r ∧ Text.lower entry.1 ≠ Text.lower key := by
  rcases r.lacks_or_has key with hlacks | ⟨before, stored, old, after, rfl, hlacks, hhas⟩
  · rw [insert_of_lacks hlacks, List.mem_append, List.mem_singleton, or_comm]
    exact or_congr_right (and_iff_left_of_imp (hlacks entry)).symm
  · have hothers : Lacks (before ++ after) key := (distinct_append_cons_iff.mp h).2.congr hhas
    rw [insert_of_has hlacks hhas, List.perm_middle.mem_iff, List.perm_middle.mem_iff,
      List.mem_cons, List.mem_cons]
    refine or_congr_right ⟨fun hmem => ⟨.inr hmem, hothers entry hmem⟩, ?_⟩
    rintro ⟨rfl | hmem, hne⟩
    · exact absurd hhas hne
    · exact hmem

/-- The record has one entry for each key among the members, up to case, in the order in which the
    keys are there first, and each entry is the last member with its key. -/
structure Collects (r : Record) (members : List (String × Json)) : Prop where
  distinct : r.Distinct
  keys : r.lowerKeys = (members.map fun m => Text.lower m.1).eraseDups
  last : ∀ entry ∈ r, ∃ before m after, members = before ++ m :: after ∧
    (∀ later ∈ after, Text.lower later.1 ≠ Text.lower m.1) ∧ entry = (m.1, Value.ofJson m.2)

/-- The empty record collects no members. -/
theorem collects_nil : Collects [] [] where
  distinct := distinct_nil
  keys := rfl
  last := by simp

/-- One member more is collected by inserting it. -/
theorem Collects.insert (h : r.Collects members) (member : String × Json) :
    (r.insert member.1 (Value.ofJson member.2)).Collects (members ++ [member]) where
  distinct := h.distinct.insert _ _
  keys := by
    have hmem : Text.lower member.1 ∈ r.lowerKeys ↔
        Text.lower member.1 ∈ members.map fun m => Text.lower m.1 := by
      rw [h.keys, List.mem_eraseDups]
    rw [List.map_append, List.eraseDups_append, ← h.keys, lowerKeys_insert]
    -- the key is there already, or it comes behind the others
    by_cases hstored : Text.lower member.1 ∈ members.map fun m => Text.lower m.1
    · rw [if_pos (hmem.mpr hstored)]
      simp [List.removeAll, hstored]
    · rw [if_neg (mt hmem.mp hstored)]
      simp [List.removeAll, hstored, List.eraseDups_cons]
  last entry hentry := by
    rcases h.distinct.mem_insert_iff.mp hentry with rfl | ⟨hold, hne⟩
    · exact ⟨members, member, [], rfl, by simp, rfl⟩
    · obtain ⟨before, m, after, rfl, hafter, rfl⟩ := h.last entry hold
      refine ⟨before, m, after ++ [member], by simp, ?_, rfl⟩
      intro later hlater
      rcases List.mem_append.mp hlater with hlater | hlater
      · exact hafter later hlater
      · rw [List.mem_singleton.mp hlater]
        exact hne.symm

/-- Members are read one after the other. -/
theorem ofMembersFrom_append (r : Record) (members members' : List (String × Json)) :
    ofMembersFrom r (members ++ members') = ofMembersFrom (ofMembersFrom r members) members' := by
  induction members generalizing r with
  | nil => rfl
  | cons member members ih => rw [List.cons_append, ofMembersFrom, ih, ofMembersFrom]

/-- What is read from an object collects its members. -/
theorem collects_ofMembersFrom (members : List (String × Json)) :
    Collects (ofMembersFrom [] members) members := by
  induction members using List.reverseRecOn with
  | nil => exact collects_nil
  | append_singleton members member ih =>
    rw [ofMembersFrom_append]
    exact ih.insert member

end Record

/-! ## Both ways -/

namespace Value

/-- A value that JSON can hold comes back from JSON as an equal one; JSON that a value can hold
    comes back the same; and any object at all is read as the record that collects its members. -/
theorem json_lossless :
    (∀ v : Value, v.WellKeyed → v.Throughout FitsJson → (ofJson v.toJson).same v = true) ∧
      (∀ j : Json, j.FitsValue → (ofJson j).toJson = j) ∧
      ∀ members : List (String × Json), ∃ r : Record,
        ofJson (.object members) = .complex r ∧ r.Collects members := by
  refine ⟨fun v hkeyed hfits => ?_, fun j hfits => hfits.toJson_ofJson, fun members => ?_⟩
  · exact (alike_ofJson_toJson hkeyed hfits).same_of_throughout hfits.isNumeric
  · exact ⟨_, rfl, Record.collects_ofMembersFrom members⟩

/-- A value with the number seven twice, as an integer and as a decimal. -/
def measured : Value :=
  .complex [("size", .list [.integer 7, .decimal ⟨0x401C000000000000⟩]), ("Name", .string "a")]

/-- JSON can hold the value. -/
theorem fitsJson_measured : measured.WellKeyed ∧ measured.Throughout FitsJson := by
  simp only [measured, wellKeyed_complex_iff, wellKeyed_list_iff, throughout_complex_iff,
    throughout_list_iff, List.forall_mem_cons, List.not_mem_nil, false_implies, implies_true,
    and_true]
  constructor
  · have hdistinct : Record.Distinct [("size", .list [.integer 7, .decimal ⟨0x401C000000000000⟩]),
        ("Name", .string "a")] := by decide +kernel
    exact ⟨hdistinct, ⟨wellKeyed_of_scalar rfl rfl, wellKeyed_of_scalar rfl rfl⟩,
      wellKeyed_of_scalar rfl rfl⟩
  · exact ⟨⟨.scalar rfl rfl trivial, .scalar rfl rfl rfl⟩, .scalar rfl rfl trivial⟩

/-- And a value can hold the JSON that it is written as. -/
theorem fitsValue_measured : measured.toJson.FitsValue := by
  have hwritten : measured.toJson = .object [("Name", .string "a"),
      ("size", .array [.integer 7, .decimal ⟨0x401C000000000000⟩])] := rfl
  have hinteger : Json.FitsValue (.integer 7) := .integer (by decide) (by decide)
  have hdecimal : Json.FitsValue (.decimal ⟨0x401C000000000000⟩) := .decimal rfl
  rw [hwritten]
  refine .object (by decide) (by decide +kernel) ?_
  simp only [List.forall_mem_cons, List.not_mem_nil, false_implies, implies_true, and_true]
  exact ⟨.string "a", .array (by simp [hinteger, hdecimal])⟩

/-- The number seven comes back as an integer and as a decimal, whichever it was.  Of two members
    `SIZE` and `size`, the second is read, at the place of the first. -/
theorem json_lossless_measured :
    measured.WellKeyed ∧ measured.Throughout FitsJson ∧ measured.toJson.FitsValue ∧
      (ofJson measured.toJson).same measured = true ∧
      (ofJson measured.toJson).toJson = measured.toJson ∧
      ∃ r : Record, ofJson (.object [("SIZE", .integer 7), ("name", .null), ("size", .bool true)]) =
        .complex r ∧ r.lowerKeys = ["size", "name"] ∧ ("size", .boolean true) ∈ r := by
  obtain ⟨hvalue, hjson, hobject⟩ := json_lossless
  obtain ⟨hkeyed, hfits⟩ := fitsJson_measured
  refine ⟨hkeyed, hfits, fitsValue_measured, hvalue _ hkeyed hfits, hjson _ fitsValue_measured, ?_⟩
  obtain ⟨r, hread, hcollects⟩ :=
    hobject [("SIZE", .integer 7), ("name", .null), ("size", .bool true)]
  refine ⟨r, hread, ?_, ?_⟩
  · rw [hcollects.keys]
    decide +kernel
  · have hentries : [("size", .boolean true), ("name", .null)] = r := Value.complex.inj hread
    rw [← hentries]
    exact List.mem_cons_self

end Value

end Scim
