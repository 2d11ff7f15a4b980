import Mathlib.Data.List.Forall2
import Scim.Proofs.Record.Entries
import Scim.Record.Access

/-!
  # Records that correspond key by key

  Two records correspond under a relation between values if each key leads to related values in
  both, or to nothing in both (`Record.Corresponds`).  A relation goes by parts (`Value.ByParts`) if
  values that it relates are of one shape and their parts are related again, the items of lists in
  their order and the entries of records under their keys; and if it relates lists of related items.

  Whatever a key addresses is found by going down through such parts, and what is found in the
  elements of a list is put into a list again.  So a relation that goes by parts holds between what
  a key addresses in two corresponding records (`Record.Corresponds.getAt?`), be it the data of an
  extension, an attribute in it, or a sub-attribute of each element of a list.
-/

/-- Items that are related are related otherwise. -/
theorem List.Forall₂.imp_of_mem {α β : Type} {R S : α → β → Prop} {as : List α} {bs : List β}
    (h : List.Forall₂ R as bs) (himp : ∀ a ∈ as, ∀ b ∈ bs, R a b → S a b) :
    List.Forall₂ S as bs := by
  induction h with
  | nil => exact .nil
  | cons h _ ih =>
    refine .cons (himp _ List.mem_cons_self _ List.mem_cons_self h) (ih fun a ha b hb => ?_)
    exact himp a (List.mem_cons_of_mem _ ha) b (List.mem_cons_of_mem _ hb)

namespace Option.Rel

variable {α β γ δ : Type} {R : α → β → Prop} {S : γ → δ → Prop} {o : Option α} {o' : Option β}

/-- What is related is missing on both sides or there on both sides. -/
theorem none_or_some (h : Option.Rel R o o') :
    o = Option.none ∧ o' = Option.none ∨
      ∃ a b, o = Option.some a ∧ o' = Option.some b ∧ R a b := by
  cases h with
  | some h => exact .inr ⟨_, _, rfl, rfl, h⟩
  | none => exact .inl ⟨rfl, rfl⟩

/-- What is related is followed up on both sides. -/
theorem bind {f : α → Option γ} {g : β → Option δ} (h : Option.Rel R o o')
    (hfg : ∀ {a b}, R a b → Option.Rel S (f a) (g b)) : Option.Rel S (o.bind f) (o'.bind g) := by
  cases h with
  | some h => exact hfg h
  | none => exact .none

/-- What is missing on both sides is replaced by related things. -/
theorem getD {a : α} {b : β} (h : Option.Rel R o o') (hab : R a b) : R (o.getD a) (o'.getD b) := by
  cases h with
  | some h => exact h
  | none => exact hab

/-- What is there on both sides is related otherwise. -/
theorem imp {R' : α → β → Prop} (h : Option.Rel R o o')
    (himp : ∀ {a b}, o = Option.some a → o' = Option.some b → R a b → R' a b) :
    Option.Rel R' o o' := by
  cases h with
  | some h => exact .some (himp rfl rfl h)
  | none => exact .none

/-- The other way around. -/
theorem swap {R' : β → α → Prop} (h : Option.Rel R o o')
    (hswap : ∀ {a b}, o = Option.some a → o' = Option.some b → R a b → R' b a) :
    Option.Rel R' o' o := by
  cases h with
  | some h => exact .some (hswap rfl rfl h)
  | none => exact .none

/-- From the first over the second to the third. -/
theorem comp {T : β → γ → Prop} {U : α → γ → Prop} {o'' : Option γ} (h : Option.Rel R o o')
    (h' : Option.Rel T o' o'')
    (hcomp : ∀ {a b c}, o = Option.some a → o' = Option.some b → o'' = Option.some c → R a b →
      T b c → U a c) : Option.Rel U o o'' := by
  cases h with
  | some h =>
    cases h' with
    | some h' => exact .some (hcomp rfl rfl rfl h h')
  | none =>
    cases h' with
    | none => exact .none

end Option.Rel

namespace Scim

/-- Each key leads to related values in both records, or to nothing in both. -/
def Record.Corresponds (R : Value → Value → Prop) (r r' : Record) : Prop :=
  ∀ key, Option.Rel R (r.get? key) (r'.get? key)

/-- Two values of one shape whose parts are related.  Of scalars nothing more is asked than that
    both are. -/
inductive Value.Corresponds (R : Value → Value → Prop) : Value → Value → Prop
  | scalar {v v' : Value} (hcomplex : v.complex? = none) (hlist : v.list? = none)
    (hcomplex' : v'.complex? = none) (hlist' : v'.list? = none) : Corresponds R v v'
  | list {items items' : List Value} (h : List.Forall₂ R items items') :
    Corresponds R (.list items) (.list items')
  | complex {fields fields' : Record} (h : fields.Corresponds R fields') :
    Corresponds R (.complex fields) (.complex fields')

/-- The relation goes by parts: from a value down to its parts, and from items up to lists. -/
structure Value.ByParts (R : Value → Value → Prop) : Prop where
  down : ∀ {v v'}, R v v' → Value.Corresponds R v v'
  up : ∀ {items items'}, List.Forall₂ R items items' → R (.list items) (.list items')

variable {R : Value → Value → Prop}

/-- Corresponding values are complex both, or neither is. -/
theorem Value.Corresponds.complex? {v v' : Value} (h : v.Corresponds R v') :
    Option.Rel (Record.Corresponds R) v.complex? v'.complex? := by
  cases h with
  | scalar hcomplex _ hcomplex' _ =>
    rw [hcomplex, hcomplex']
    exact .none
  | list h => exact .none
  | complex h => exact .some h

namespace Record

variable {r r' : Record} {lacking : Value}

/-- A sub-attribute of related values, in each element of lists. -/
theorem rel_getSub? (hR : Value.ByParts R) {v v' : Value} (h : R v v') (sub : Name)
    (hlacking : R lacking lacking) :
    Option.Rel R (getSub? v sub lacking) (getSub? v' sub lacking) := by
  have hparts := hR.down h
  cases hparts with
  | scalar hcomplex hlist hcomplex' hlist' =>
    -- scalars have no sub-attributes
    have hnone : ∀ {w : Value}, w.complex? = none → w.list? = none →
        getSub? w sub lacking = none := by
      intro w hc hl
      cases w with
      | complex fields => simp [Value.complex?] at hc
      | list items => simp [Value.list?] at hl
      | _ => rfl
    rw [hnone hcomplex hlist, hnone hcomplex' hlist']
    exact .none
  | list hitems =>
    refine .some (hR.up (List.rel_map (fun item item' hitem => ?_) hitems))
    have hfields := (hR.down hitem).complex?
    exact (hfields.bind fun hfields => hfields sub.text).getD hlacking
  | complex hfields => exact hfields sub.text

/-- What a path leads to in corresponding records is related. -/
theorem Corresponds.getPath? (h : r.Corresponds R r') (hR : Value.ByParts R) (path : Path)
    (hlacking : R lacking lacking) :
    Option.Rel R (r.getPath? path lacking) (r'.getPath? path lacking) := by
  refine (h path.attr.text).bind fun hvalue => ?_
  cases path.sub with
  | none => exact .some hvalue
  | some sub => exact rel_getSub? hR hvalue sub hlacking

/-- What a key addresses in corresponding records is related. -/
theorem Corresponds.getAt? (h : r.Corresponds R r') (hR : Value.ByParts R) (key : Key)
    (hlacking : R lacking lacking) :
    Option.Rel R (r.getAt? key lacking) (r'.getAt? key lacking) := by
  cases key with
  | extension uri => exact h uri.text
  | attr within path =>
    cases within with
    -- in the record itself, or in the data of the extension
    | none => exact h.getPath? hR path hlacking
    | some uri =>
      refine (h uri.text).bind fun hvalue => ?_
      exact (hR.down hvalue).complex?.bind fun hfields => hfields.getPath? hR path hlacking

/-- What a source of a key addresses in corresponding records is related. -/
theorem Corresponds.read? (h : r.Corresponds R r') (hR : Value.ByParts R) (hnull : R .null .null)
    (catalog : Catalog) (source : Key.Source) :
    Option.Rel R (Record.read? catalog r source) (Record.read? catalog r' source) := by
  unfold Record.read?
  cases (source.key catalog).toOption with
  | none => exact .none
  | some key => exact h.getAt? hR key hnull

end Record

end Scim
