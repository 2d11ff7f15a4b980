import Scim.Proofs.Value.Equality
import Scim.Value.Plain

/-!
  # Values by way of JSON

  JSON sorts the members of an object and tells keys of different casings apart.  A record without
  keys that differ in case only loses nothing by it: its entries come back in another order
  (`Value.alike_ofJson_toJson`).  Two sorts of scalars do not come back, date-times, and decimals
  that are infinite or no numbers (`Value.FitsJson`).
-/

namespace Scim

/-! ## Objects -/

namespace Json

variable {α : Type} {key : String} {value : α}

/-- A new member is put among the others. -/
theorem insertMember_perm {members : List (String × α)} (h : key ∉ members.map (·.1)) :
    (insertMember key value members).Perm ((key, value) :: members) := by
  induction members with
  | nil => exact .refl _
  | cons member members ih =>
    obtain ⟨k, v⟩ := member
    have hne : key ≠ k := fun heq => h (heq ▸ List.mem_cons_self)
    have hrest : key ∉ members.map (·.1) := fun hmem => h (List.mem_cons_of_mem _ hmem)
    rw [insertMember, if_neg hne]
    split
    · exact .refl _
    · exact ((ih hrest).cons _).trans (.swap _ _ _)

/-- One after the other members are put among those that are sorted. -/
theorem foldl_insertMember_perm {members sorted : List (String × α)}
    (h : ((members ++ sorted).map (·.1)).Nodup) :
    (members.foldl (fun sorted member => insertMember member.1 member.2 sorted) sorted).Perm
      (members ++ sorted) := by
  -- on the members that are still to be put in, none of which is among the sorted ones
  induction members generalizing sorted with
  | nil => exact .refl _
  | cons member members ih =>
    rw [List.cons_append, List.map_cons, List.nodup_cons] at h
    have hfresh : member.1 ∉ sorted.map (·.1) := by
      intro hmem
      rw [List.map_append] at h
      exact h.1 (List.mem_append_right _ hmem)
    have hinsert : (insertMember member.1 member.2 sorted).Perm (member :: sorted) :=
      insertMember_perm hfresh
    have hmove : (members ++ insertMember member.1 member.2 sorted).Perm
        (member :: members ++ sorted) :=
      (hinsert.append_left members).trans List.perm_middle
    have hnext : ((members ++ insertMember member.1 member.2 sorted).map (·.1)).Nodup :=
      (hmove.map (·.1)).nodup_iff.mpr (List.nodup_cons.mpr h)
    exact (ih hnext).trans hmove

/-- Sorting only changes the order, where no key is there twice. -/
theorem sortMembers_perm {members : List (String × α)} (h : (members.map (·.1)).Nodup) :
    (sortMembers members).Perm members := by
  have hsorted := @foldl_insertMember_perm α members [] (by rwa [List.append_nil])
  rwa [List.append_nil] at hsorted

end Json

/-! ## Item by item, member by member -/

/-- An integer is read back from its number. -/
theorem Value.ofInt_toInt (n : Int64) : Value.ofInt n.toInt = .integer n := by
  have hbounds : Int64.minValue.toInt ≤ n.toInt ∧ n.toInt ≤ Int64.maxValue.toInt :=
    ⟨n.minValue_le_toInt, n.toInt_le⟩
  rw [ofInt, ofInt?, if_pos hbounds, Int64.ofInt_toInt]

/-- Items are read back one by one. -/
theorem Value.ofJsonItems_toJsonItems (items : List Value) :
    ofJsonItems (toJsonItems items) = items.map fun item => ofJson item.toJson := by
  induction items with
  | nil => rfl
  | cons item items ih => rw [toJsonItems, ofJsonItems, ih, List.map_cons]

/-- Entries are written one by one. -/
theorem Record.toMembers_eq_map (r : Record) :
    toMembers r = r.map fun entry => (entry.1, entry.2.toJson) := by
  induction r with
  | nil => rfl
  | cons entry r ih => rw [toMembers, ih, List.map_cons]

/-- Members without keys that differ in case only become entries in their order. -/
theorem Record.ofMembersFrom_eq_append {members : List (String × Json)} {r : Record}
    (h : ((members.map fun m => Text.lower m.1) ++ r.map fun e => Text.lower e.1).Nodup) :
    ofMembersFrom r members = r ++ members.map fun m => (m.1, Value.ofJson m.2) := by
  induction members generalizing r with
  | nil => rw [ofMembersFrom, List.map_nil, List.append_nil]
  | cons member members ih =>
    rw [List.map_cons, List.cons_append, List.nodup_cons] at h
    -- no entry so far has the key, so the new one comes last
    have hlacks : r.Lacks member.1 := by
      intro entry hentry heq
      exact h.1 (List.mem_append_right _ (List.mem_map.mpr ⟨entry, hentry, heq⟩))
    have hnext : ((members.map fun m => Text.lower m.1) ++
        (r ++ [(member.1, Value.ofJson member.2)]).map fun e => Text.lower e.1).Nodup := by
      rw [List.map_append, ← List.append_assoc]
      exact (List.perm_append_singleton _ _).nodup_iff.mpr (List.nodup_cons.mpr h)
    rw [ofMembersFrom, insert_of_lacks hlacks, ih hnext, List.map_cons, List.append_assoc,
      List.singleton_append]

/-! ## There and back -/

/-- What JSON can hold of the scalars. -/
def Value.FitsJson : Value → Prop
  | .decimal d => d.isFinite = true
  | .dateTime _ => False
  | _ => True

/-- What JSON can hold is numeric. -/
theorem Value.Throughout.isNumeric {v : Value} (h : v.Throughout FitsJson) :
    v.Throughout IsNumeric := by
  induction h with
  | scalar hcomplex hlist h =>
    refine .scalar hcomplex hlist fun d hd => ?_
    subst hd
    exact Decimal.isNaN_of_isFinite h
  | list _ ih => exact .list ih
  | complex _ ih => exact .complex ih

/-- The entries come back in another order. -/
theorem Record.ofJson_toJson_perm {fields : Record} (h : fields.Distinct) : ∃ fields' : Record,
    Value.ofJson (Value.toJson (.complex fields)) = .complex fields' ∧
      (fields.map fun entry => (entry.1, Value.ofJson entry.2.toJson)).Perm fields' := by
  have hkeys : (fields.map fun entry => Text.lower entry.1).Nodup := h
  -- keys that differ not in case only differ
  have hmembers : ((toMembers fields).map (·.1)).Nodup := by
    have hexact : (fields.map (·.1)).Nodup := by
      refine List.Nodup.of_map Text.lower ?_
      rwa [List.map_map]
    rwa [toMembers_eq_map, List.map_map]
  have hperm := Json.sortMembers_perm hmembers
  have hsorted : ((Json.sortMembers (toMembers fields)).map fun m => Text.lower m.1).Nodup := by
    rw [(hperm.map _).nodup_iff, toMembers_eq_map, List.map_map]
    exact hkeys
  refine ⟨_, rfl, ?_⟩
  rw [ofMembersFrom_eq_append (by rwa [List.map_nil, List.append_nil]), List.nil_append]
  have hback : fields.map (fun entry => (entry.1, Value.ofJson entry.2.toJson)) =
      (toMembers fields).map fun m => (m.1, Value.ofJson m.2) := by
    rw [toMembers_eq_map, List.map_map]
    rfl
  rw [hback]
  exact (hperm.map _).symm

/-- What is written as JSON is read as an alike value. -/
theorem Value.alike_ofJson_toJson {v : Value} (hkeyed : v.WellKeyed)
    (hfits : v.Throughout FitsJson) : v.Alike (ofJson v.toJson) := by
  -- on the value whose scalars JSON can hold
  induction hfits with
  | @scalar v hcomplex hlist hfits =>
    have hback : ofJson v.toJson = v := by
      cases v with
      | integer n => exact ofInt_toInt n
      | decimal d =>
        have hfinite : d.isFinite = true := hfits
        show ofJson (if d.isFinite = true then .decimal d else .null) = .decimal d
        rw [if_pos hfinite]
        rfl
      | dateTime t => exact hfits.elim
      | complex fields => nomatch hcomplex
      | list items => nomatch hlist
      | _ => rfl
    rw [hback]
    exact .scalar hcomplex hlist
  | @list items _ ih =>
    have hitems := wellKeyed_list_iff.mp hkeyed
    show Alike (.list items) (.list (ofJsonItems (toJsonItems items)))
    rw [ofJsonItems_toJsonItems]
    refine .list (List.forall₂_map_right_iff.mpr (List.forall₂_same.mpr fun item hitem => ?_))
    exact ih item hitem (hitems item hitem)
  | @complex fields _ ih =>
    have ⟨hdistinct, hentries⟩ := wellKeyed_complex_iff.mp hkeyed
    obtain ⟨fields', hback, hperm⟩ := Record.ofJson_toJson_perm hdistinct
    rw [hback]
    -- entry by entry first, and then in the order of JSON
    refine Record.alike_iff.mpr ⟨hdistinct, _, ?_, hperm⟩
    refine List.forall₂_map_right_iff.mpr (List.forall₂_same.mpr fun entry hentry => ?_)
    exact ⟨rfl, ih entry hentry (hentries entry hentry)⟩

/-- A record that is written as JSON is read as an alike record. -/
theorem Record.exists_ofValue_ofJson {r : Record} (hkeyed : r.WellKeyed)
    (hfits : r.Throughout Value.FitsJson) :
    ∃ back, ofValue (Value.ofJson (Record.toJson r)) = .ok back ∧ r.Alike back :=
  ⟨_, rfl, Value.alike_ofJson_toJson hkeyed hfits⟩

end Scim
