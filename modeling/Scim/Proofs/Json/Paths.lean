import Scim.Json.Basic

/-!
  # Paths through JSON

  A path is a list of keys, and leads from object to object (`Json.at?`).  The members of an object
  that is made with `insertMember` are looked up as expected (`lookup_insertMember`), and stay in the
  order of their keys (`Ordered.insertMember`), so that no key is there twice.
-/

namespace Scim.Json

variable {α : Type} {key : String} {value : α} {members : List (String × α)}

/-! ## Members -/

/-- Looking up a key asks the first member, and then the others. -/
theorem lookup_cons_eq (k : String) (member : String × α) (members : List (String × α)) :
    (member :: members).lookup k = if k = member.1 then some member.2 else members.lookup k := by
  rw [List.lookup_cons]
  by_cases h : k = member.1
  · rw [beq_iff_eq.mpr h, if_pos h]
  · rw [beq_eq_false_iff_ne.mpr h, if_neg h]

/-- A key that is inserted is found with its new value, and all others are found as before. -/
theorem lookup_insertMember (key : String) (value : α) (members : List (String × α)) (k : String) :
    (insertMember key value members).lookup k =
      if k = key then some value else members.lookup k := by
  induction members with
  | nil => exact lookup_cons_eq k (key, value) []
  | cons member members ih =>
    unfold insertMember
    -- the member is replaced, the new one goes before it, or it is behind
    by_cases hkey : key = member.1
    · rw [if_pos hkey, lookup_cons_eq, lookup_cons_eq]
      by_cases hk : k = key
      · simp [hk]
      · simp [hk, ← hkey]
    · rw [if_neg hkey]
      split
      · rw [lookup_cons_eq]
      · rw [lookup_cons_eq, lookup_cons_eq, ih]
        by_cases hk : k = key
        · rw [if_pos hk, if_pos hk, hk, if_neg hkey]
        · rw [if_neg hk, if_neg hk]

/-- Members in the order of their keys. -/
def Ordered (members : List (String × α)) : Prop := members.Pairwise fun m m' => m.1 < m'.1

/-- Nothing comes in but the new member. -/
theorem mem_insertMember {member : String × α} (h : member ∈ insertMember key value members) :
    member = (key, value) ∨ member ∈ members := by
  induction members with
  | nil => exact .inl (List.mem_singleton.mp h)
  | cons m members ih =>
    unfold insertMember at h
    split at h
    · exact (List.mem_cons.mp h).imp_right (List.mem_cons_of_mem _)
    · split at h
      · exact List.mem_cons.mp h
      · rcases List.mem_cons.mp h with rfl | h
        · exact .inr List.mem_cons_self
        · exact (ih h).imp_right (List.mem_cons_of_mem _)

/-- Inserting keeps members in the order of their keys, and no key comes twice. -/
theorem Ordered.insertMember (h : Ordered members) (key : String) (value : α) :
    Ordered (Json.insertMember key value members) := by
  induction members with
  | nil => exact List.pairwise_singleton _ _
  | cons m members ih =>
    obtain ⟨hfirst, hrest⟩ := List.pairwise_cons.mp h
    unfold Json.insertMember
    -- in place of the first, before it, or behind it
    by_cases hkey : key = m.1
    · rw [if_pos hkey]
      refine List.pairwise_cons.mpr ⟨fun m' hm' => ?_, hrest⟩
      show key < m'.1
      rw [hkey]
      exact hfirst m' hm'
    · rw [if_neg hkey]
      split
      · rename_i hlt
        refine List.pairwise_cons.mpr ⟨fun m' hm' => ?_, h⟩
        rcases List.mem_cons.mp hm' with rfl | hm'
        · exact hlt
        · exact String.lt_trans hlt (hfirst m' hm')
      · rename_i hnot
        refine List.pairwise_cons.mpr ⟨fun m' hm' => ?_, ih hrest⟩
        rcases mem_insertMember hm' with rfl | hm'
        · -- the key is neither that of the first member nor before it
          refine String.not_le.mp fun hle => hkey ?_
          exact String.le_antisymm hle (String.not_lt.mp hnot)
        · exact hfirst m' hm'

/-! ## Paths -/

/-- What a path leads to. -/
def at? (j : Json) (path : List String) : Option Json :=
  match path with
  | [] => some j
  | key :: rest => (j.member? key).bind fun inner => inner.at? rest

/-- The members of the object that a path leads to. -/
def membersAt (j : Json) (path : List String) : List (String × Json) :=
  match j.at? path with
  | some (.object members) => members
  | _ => []

/-- The items of the list that a path leads to. -/
def itemsAt (j : Json) (path : List String) : List Json :=
  match j.at? path with
  | some (.array items) => items
  | _ => []

/-- A path leads on from where the first part of it leads. -/
theorem at?_append (j : Json) (path rest : List String) :
    j.at? (path ++ rest) = (j.at? path).bind fun inner => inner.at? rest := by
  induction path generalizing j with
  | nil => rfl
  | cons key path ih =>
    show (j.member? key).bind _ = ((j.member? key).bind _).bind _
    rw [Option.bind_assoc]
    exact Option.bind_congr fun inner _ => ih inner

/-- Nothing lies below what is no object. -/
theorem at?_append_of_array {j : Json} {path rest : List String} {items : List Json}
    (h : j.at? path = some (.array items)) (hrest : rest ≠ []) : j.at? (path ++ rest) = none := by
  rw [at?_append, h]
  cases rest with
  | nil => exact absurd rfl hrest
  | cons key rest => rfl

/-- The object that a path leads to, empty if there is none, leads on as the path does. -/
theorem at?_membersAt (j : Json) (path : List String) (key : String) (rest : List String) :
    (Json.object (j.membersAt path)).at? (key :: rest) = j.at? (path ++ key :: rest) := by
  rw [at?_append, membersAt]
  cases j.at? path with
  | none => rfl
  | some inner => cases inner <;> rfl

/-- The members at a path are those at its second part, below those at its first. -/
theorem membersAt_membersAt (j : Json) (path rest : List String) :
    (Json.object (j.membersAt path)).membersAt rest = j.membersAt (path ++ rest) := by
  cases rest with
  | nil =>
    rw [List.append_nil]
    rfl
  | cons key rest => rw [membersAt, at?_membersAt, ← membersAt]

theorem itemsAt_membersAt (j : Json) (path : List String) (key : String) :
    (Json.object (j.membersAt path)).itemsAt [key] = j.itemsAt (path ++ [key]) := by
  rw [itemsAt, at?_membersAt, ← itemsAt]

end Scim.Json
