import Mathlib.Data.List.Nodup
import Scim.Filter.Operator
import Scim.Proofs.Text.Casing

/-!
  # Sets of operators

  Operators are added one after the other, and each is checked against those before it (`Built`).
  So no matter in which order they came, the lower-case forms of all tokens are words, none of them
  is a keyword, and no two are the same (`WellFormed`, `Built.wellFormed`).  From the last it follows
  that looking up a token finds the operator with that token, whichever it is (`unary?_eq_some_iff`,
  `binary?_eq_some_iff`).
-/

namespace Scim.Operators

/-- The operators were added one after the other. -/
inductive Built : Operators → Prop
  | empty : Built .empty
  | unary {ops ops' : Operators} (op : UnaryOperator) :
      Built ops → ops.addUnary op = .ok ops' → Built ops'
  | binary {ops ops' : Operators} (op : BinaryOperator) :
      Built ops → ops.addBinary op = .ok ops' → Built ops'

/-- Operators that are added in a row are added one after the other. -/
theorem built_of_foldlM {α : Type} {add : Operators → α → Except BuildError Operators}
    (hadd : ∀ ops op ops', Built ops → add ops op = .ok ops' → Built ops') (list : List α) :
    ∀ {ops ops' : Operators}, Built ops → list.foldlM add ops = .ok ops' → Built ops' := by
  induction list with
  | nil =>
    intro ops ops' hops h
    rw [List.foldlM_nil] at h
    cases h
    exact hops
  | cons op list ih =>
    intro ops ops' hops h
    rw [List.foldlM_cons] at h
    obtain ⟨next, hop, hrest⟩ := bind_eq_ok.mp h
    exact ih (hadd ops op next hops hop) hrest

/-- The operators of the protocol are added like any others. -/
theorem Built.addStandard {ops ops' : Operators} (hops : Built ops)
    (h : ops.addStandard = .ok ops') : Built ops' := by
  unfold Operators.addStandard at h
  obtain ⟨next, hunary, hbinary⟩ := bind_eq_ok.mp h
  have hnext : Built next := built_of_foldlM (fun _ op _ => .unary op) _ hops hunary
  exact built_of_foldlM (fun _ op _ => .binary op) _ hnext hbinary

/-- The operators of the protocol are such a set. -/
theorem built_standard : Built .standard := by
  have h : Operators.empty.addStandard = .ok .standard := by with_unfolding_all rfl
  exact Built.empty.addStandard h

/-! ## What all operators have in common -/

/-- What operators are found by. -/
def keys (ops : Operators) : List String :=
  ops.unary.map UnaryOperator.key ++ ops.binary.map BinaryOperator.key

/-- The keys are words, and no keywords; each is that of one operator. -/
structure WellFormed (ops : Operators) : Prop where
  nonempty : ∀ key ∈ ops.keys, key.toList ≠ []
  unbroken : ∀ key ∈ ops.keys, ∀ c ∈ key.toList, breaksWord c = false
  reserved : ∀ key ∈ ops.keys, key ∉ keywords
  nodup : ops.keys.Nodup

/-- A token is taken if its lower-case form is a key. -/
theorem contains_iff (ops : Operators) (token : String) :
    ops.contains token = true ↔ Text.lower token ∈ ops.keys := by
  simp [contains, unary?, binary?, keys, List.find?_isSome]

/-- One more key that was checked keeps the keys well formed, wherever it is put. -/
theorem WellFormed.of_perm {ops ops' : Operators} {token : String} (h : ops.WellFormed)
    (htoken : ops.tokenError? token = none)
    (hperm : ops'.keys.Perm (Text.lower token :: ops.keys)) : ops'.WellFormed := by
  dsimp only [tokenError?] at htoken
  split at htoken
  · exact absurd htoken (by simp)
  rename_i hword
  split at htoken
  · exact absurd htoken (by simp)
  rename_i hnew
  simp only [Bool.or_eq_true, not_or, List.isEmpty_iff, List.any_eq_true, not_exists, not_and,
    Bool.not_eq_true, List.contains_iff_mem] at hword hnew
  have hcases : ∀ key ∈ ops'.keys, key = Text.lower token ∨ key ∈ ops.keys :=
    fun key hkey => List.mem_cons.mp (hperm.mem_iff.mp hkey)
  constructor
  · intro key hkey
    rcases hcases key hkey with rfl | hkey
    · exact hword.1
    · exact h.nonempty key hkey
  · intro key hkey
    rcases hcases key hkey with rfl | hkey
    · exact hword.2
    · exact h.unbroken key hkey
  · intro key hkey
    rcases hcases key hkey with rfl | hkey
    · exact hnew.1
    · exact h.reserved key hkey
  · -- a key that was there already would have been refused as taken
    refine hperm.nodup_iff.mpr (List.nodup_cons.mpr ⟨fun hmem => ?_, h.nodup⟩)
    have hcontains := (ops.contains_iff (Text.lower token)).mpr (by rwa [Text.lower_lower])
    rw [hcontains] at hnew
    exact absurd hnew.2 (by decide)

/-- Each operator that is added keeps the others apart from it. -/
theorem Built.wellFormed {ops : Operators} (h : Built ops) : ops.WellFormed := by
  induction h with
  | empty => exact ⟨by simp [keys, Operators.empty], by simp [keys, Operators.empty],
      by simp [keys, Operators.empty], by simp [keys, Operators.empty]⟩
  | @unary ops ops' op _ hadd ih =>
    unfold addUnary at hadd
    split at hadd
    · exact absurd hadd (by simp)
    rename_i htoken
    cases hadd
    -- a unary operator is put last among its own, in front of the binary ones
    refine ih.of_perm htoken ?_
    show (List.map _ (_ ++ [op]) ++ _).Perm _
    rw [List.map_append, List.append_assoc]
    exact List.perm_middle
  | @binary ops ops' op _ hadd ih =>
    unfold addBinary at hadd
    split at hadd
    · exact absurd hadd (by simp)
    rename_i htoken
    cases hadd
    refine ih.of_perm htoken ?_
    show (_ ++ List.map _ (_ ++ [op])).Perm _
    rw [List.map_append, ← List.append_assoc]
    exact List.perm_append_singleton _ _

/-! ## Looking operators up -/

/-- Where keys differ, the first with a key is the only one. -/
theorem find?_key_eq_some_iff {α : Type} {key : α → String} {list : List α}
    (h : (list.map key).Nodup) (k : String) (a : α) :
    list.find? (key · == k) = some a ↔ a ∈ list ∧ key a = k := by
  constructor
  · intro hfind
    exact ⟨List.mem_of_find?_eq_some hfind, by simpa using List.find?_some hfind⟩
  · -- the search stops no earlier, since the keys before differ
    rintro ⟨hmem, rfl⟩
    induction list with
    | nil => exact absurd hmem (by simp)
    | cons b list ih =>
      rw [List.map_cons, List.nodup_cons] at h
      rcases List.mem_cons.mp hmem with rfl | hmem
      · simp
      · have hne : key b ≠ key a := fun he => h.1 (he ▸ List.mem_map_of_mem hmem)
        rw [List.find?_cons_of_neg (by simpa using hne)]
        exact ih h.2 hmem

variable {ops : Operators} (h : ops.WellFormed)

include h

/-- A token is looked up as the unary operator whose token it is up to case. -/
theorem WellFormed.unary?_eq_some_iff (token : String) (op : UnaryOperator) :
    ops.unary? token = some op ↔ op ∈ ops.unary ∧ op.key = Text.lower token :=
  find?_key_eq_some_iff (List.nodup_append.mp h.nodup).1 (Text.lower token) op

/-- A token is looked up as the binary operator whose token it is up to case. -/
theorem WellFormed.binary?_eq_some_iff (token : String) (op : BinaryOperator) :
    ops.binary? token = some op ↔ op ∈ ops.binary ∧ op.key = Text.lower token :=
  find?_key_eq_some_iff (List.nodup_append.mp h.nodup).2.1 (Text.lower token) op

end Scim.Operators
