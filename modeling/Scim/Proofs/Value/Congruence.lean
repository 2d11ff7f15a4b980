import Mathlib.Data.List.Perm.Subperm
import Scim.Proofs.Record.Setting
import Scim.Proofs.Value.Equality

/-!
  # Equality is a congruence

  Two records are compared by their lengths and by looking up each entry of the one in the other.
  The definition does not treat both sides alike: nothing says that each key of the second record is
  in the first.  It follows by counting.  The keys of the first record are among those of the
  second, no key is there twice, and there are equally many, so the keys are the same
  (`Record.Same.keys_perm`).  Then equality is a matter of both sides: each key leads to equal
  values in both records, or to nothing in both (`Record.same_iff_corresponds`).

  From there everything goes by parts.  Records can be compared (`Record.Proper`) if no record in
  them has two keys that differ in case only and no decimal in them is no number.  Between those,
  equality is an equivalence, and what a key addresses in equal records is equal.
-/

namespace Scim

/-! ## Scalars -/

/-- Decimals are equal if they are numbers and have the same place among all numbers. -/
theorem Decimal.same_iff {a b : Decimal} :
    a.same b = true ↔ a.isNaN = false ∧ b.isNaN = false ∧ a.rank = b.rank := by
  rw [same, compare, beq_iff_eq]
  cases a.isNaN <;> cases b.isNaN <;> simp

/-- Date-times are equal if they are the same moment. -/
theorem DateTime.same_iff {t u : DateTime} : t.same u = true ↔ t.instant = u.instant := by
  rw [same, compare, beq_iff_eq, Ordering.then_eq_eq, Std.compare_eq_iff_eq, Std.compare_eq_iff_eq,
    Prod.ext_iff]

namespace Value

variable {v v' v'' : Value}

/-- The values are equal. -/
def Same (v v' : Value) : Prop := v.same v' = true

/-- What a scalar stands for: a decimal for its place among all numbers, a date-time for a
    moment. -/
inductive Denoted where
  | null
  | boolean (b : Bool)
  | integer (n : Int64)
  | decimal (rank : Int)
  | string (s : String)
  | dateTime (instant : Int × Nat)

/-- What a value stands for, if it is a scalar; a decimal that is no number stands for nothing. -/
def denoted? : Value → Option Denoted
  | .null => some .null
  | .boolean b => some (.boolean b)
  | .integer n => some (.integer n)
  | .decimal d => if d.isNaN then none else some (.decimal d.rank)
  | .string s => some (.string s)
  | .dateTime t => some (.dateTime t.instant)
  | .complex _ => none
  | .list _ => none

/-- Scalars are equal if they stand for the same. -/
theorem same_iff_denoted? (hcomplex : v.complex? = none) (hlist : v.list? = none) :
    v.Same v' ↔ v.denoted?.isSome = true ∧ v.denoted? = v'.denoted? := by
  unfold Same
  -- of the scalars only a decimal may stand for nothing
  cases v with
  | complex fields => simp [complex?] at hcomplex
  | list items => simp [list?] at hlist
  | decimal a =>
    cases v' with
    | decimal b =>
      cases ha : a.isNaN <;> cases hb : b.isNaN <;> simp [same, denoted?, Decimal.same_iff, ha, hb]
    | _ => cases ha : a.isNaN <;> simp [same, denoted?, ha]
  | _ =>
    cases v' with
    | decimal b => cases hb : b.isNaN <;> simp [same, denoted?, hb]
    | _ => simp [same, denoted?, DateTime.same_iff]

/-- What equals a scalar is a scalar. -/
theorem Same.scalar (h : v.Same v') (hcomplex : v.complex? = none) (hlist : v.list? = none) :
    v'.complex? = none ∧ v'.list? = none := by
  obtain ⟨hsome, hdenoted⟩ := (same_iff_denoted? hcomplex hlist).mp h
  rw [hdenoted] at hsome
  cases v' with
  | complex fields => nomatch hsome
  | list items => nomatch hsome
  | _ => exact ⟨rfl, rfl⟩

/-- Equality of scalars is symmetric. -/
theorem Same.symm_of_scalar (h : v.Same v') (hcomplex : v.complex? = none)
    (hlist : v.list? = none) : v'.Same v := by
  obtain ⟨hcomplex', hlist'⟩ := h.scalar hcomplex hlist
  obtain ⟨hsome, hdenoted⟩ := (same_iff_denoted? hcomplex hlist).mp h
  exact (same_iff_denoted? hcomplex' hlist').mpr ⟨hdenoted ▸ hsome, hdenoted.symm⟩

/-- And it is transitive. -/
theorem Same.trans_of_scalar (h : v.Same v') (h' : v'.Same v'') (hcomplex : v.complex? = none)
    (hlist : v.list? = none) : v.Same v'' := by
  obtain ⟨hcomplex', hlist'⟩ := h.scalar hcomplex hlist
  obtain ⟨hsome, hdenoted⟩ := (same_iff_denoted? hcomplex hlist).mp h
  obtain ⟨-, hdenoted'⟩ := (same_iff_denoted? hcomplex' hlist').mp h'
  exact (same_iff_denoted? hcomplex hlist).mpr ⟨hsome, hdenoted.trans hdenoted'⟩

/-! ## Lists -/

/-- Lists are equal if they are item by item. -/
theorem sameItems_iff {items items' : List Value} :
    sameItems items items' = true ↔ List.Forall₂ Same items items' := by
  induction items generalizing items' with
  | nil => cases items' <;> simp [sameItems]
  | cons item items ih =>
    cases items' with
    | nil => simp [sameItems]
    | cons item' items' =>
      rw [sameItems, Bool.and_eq_true, ih, List.forall₂_cons]
      rfl

end Value

/-! ## Records -/

namespace Record

variable {r r' : Record} {key : String}

/-- The records are equal. -/
def Same (r r' : Record) : Prop := r.same r' = true

/-- The keys in lower case. -/
def lowerKeys (r : Record) : List String := r.map fun entry => Text.lower entry.1

/-- A key is not found just if it is none of the keys, up to case. -/
theorem get?_eq_none_iff : r.get? key = none ↔ Text.lower key ∉ r.lowerKeys := by
  rcases r.lacks_or_has key with hlacks | ⟨before, stored, old, after, rfl, hlacks, hhas⟩
  · refine iff_of_true (get?_of_lacks hlacks) fun hmem => ?_
    obtain ⟨entry, hentry, heq⟩ := List.mem_map.mp hmem
    exact hlacks entry hentry heq
  · refine iff_of_false (by simp [get?_of_has hlacks hhas]) (not_not_intro ?_)
    simp [lowerKeys, hhas]

/-- Records are equal if they are as long and each entry of the first has an equal value in the
    second. -/
theorem same_eq_true : r.same r' = true ↔ r.length = r'.length ∧
    ∀ entry ∈ r, ∃ value, r'.get? entry.1 = some value ∧ entry.2.Same value := by
  rw [same, Bool.and_eq_true, beq_iff_eq, within_iff]
  rfl

/-- Equal records have the same keys: those of the first are among those of the second, and there
    are equally many. -/
theorem Same.keys_perm (h : r.Same r') (hdistinct : r.Distinct) :
    r.lowerKeys.Perm r'.lowerKeys := by
  obtain ⟨hlength, hfound⟩ := same_eq_true.mp h
  have hsubset : r.lowerKeys ⊆ r'.lowerKeys := by
    intro lower hlower
    obtain ⟨entry, hentry, rfl⟩ := List.mem_map.mp hlower
    obtain ⟨value, hget, -⟩ := hfound entry hentry
    by_contra hmissing
    rw [get?_eq_none_iff.mpr hmissing] at hget
    nomatch hget
  have hle : r'.lowerKeys.length ≤ r.lowerKeys.length := by
    simp only [lowerKeys, List.length_map]
    omega
  exact (List.subperm_of_subset hdistinct hsubset).perm_of_length_le hle

/-- Records that correspond have the same keys. -/
theorem Corresponds.mem_lowerKeys_iff {R : Value → Value → Prop} (h : r.Corresponds R r')
    (key : String) : Text.lower key ∈ r.lowerKeys ↔ Text.lower key ∈ r'.lowerKeys := by
  rw [← not_iff_not, ← get?_eq_none_iff, ← get?_eq_none_iff]
  rcases (h key).none_or_some with ⟨hnone, hnone'⟩ | ⟨value, value', hsome, hsome', -⟩
  · exact iff_of_true hnone hnone'
  · exact iff_of_false (by simp [hsome]) (by simp [hsome'])

/-- And so they have equally many. -/
theorem Corresponds.keys_perm {R : Value → Value → Prop} (h : r.Corresponds R r')
    (hdistinct : r.Distinct) (hdistinct' : r'.Distinct) : r.lowerKeys.Perm r'.lowerKeys := by
  refine (List.perm_ext_iff_of_nodup hdistinct hdistinct').mpr fun lower => ?_
  constructor
  · intro hmem
    obtain ⟨entry, -, rfl⟩ := List.mem_map.mp hmem
    exact (h.mem_lowerKeys_iff entry.1).mp hmem
  · intro hmem
    obtain ⟨entry, -, rfl⟩ := List.mem_map.mp hmem
    exact (h.mem_lowerKeys_iff entry.1).mpr hmem

/-- Equality is a matter of both sides. -/
theorem same_iff_corresponds (hdistinct : r.Distinct) (hdistinct' : r'.Distinct) :
    r.Same r' ↔ r.Corresponds Value.Same r' := by
  constructor
  · -- a key that the second has is one of the first, for these are all
    intro hsame key
    have hkeys := (hsame.keys_perm hdistinct).mem_iff (a := Text.lower key)
    cases hget : r.get? key with
    | none =>
      have hmissing : r'.get? key = none := by rwa [get?_eq_none_iff, ← hkeys, ← get?_eq_none_iff]
      rw [hmissing]
      exact .none
    | some value =>
      obtain ⟨entry, hentry, hkey, rfl⟩ := mem_values.mp (mem_values_of_get? hget)
      obtain ⟨value', hget', heq⟩ := (same_eq_true.mp hsame).2 entry hentry
      rw [← get?_congr (sameKey_iff.mp hkey), hget']
      exact .some heq
  · intro h
    have hlength := (h.keys_perm hdistinct hdistinct').length_eq
    simp only [lowerKeys, List.length_map] at hlength
    refine same_eq_true.mpr ⟨hlength, fun entry hentry => ?_⟩
    rcases (h entry.1).none_or_some with ⟨hnone, -⟩ | ⟨value, value', hsome, hsome', heq⟩
    · rw [hdistinct.get?_of_mem hentry] at hnone
      nomatch hnone
    · obtain rfl := Option.some.inj (hsome.symm.trans (hdistinct.get?_of_mem hentry))
      exact ⟨value', hsome', heq⟩

/-- Records correspond just if they have the same keys up to case, and related values under each. -/
theorem corresponds_iff_entries {R : Value → Value → Prop} (hdistinct : r.Distinct)
    (hdistinct' : r'.Distinct) : r.Corresponds R r' ↔
      (∀ lower, lower ∈ r.lowerKeys ↔ lower ∈ r'.lowerKeys) ∧
        ∀ entry ∈ r, ∀ entry' ∈ r', Text.lower entry.1 = Text.lower entry'.1 →
          R entry.2 entry'.2 := by
  constructor
  · intro h
    refine ⟨fun lower => (h.keys_perm hdistinct hdistinct').mem_iff, ?_⟩
    intro entry hentry entry' hentry' hkey
    have hrel := h entry.1
    rw [hdistinct.get?_of_mem hentry, get?_congr hkey, hdistinct'.get?_of_mem hentry'] at hrel
    cases hrel with
    | some hrel => exact hrel
  · -- a key of one record is one of the other
    rintro ⟨hkeys, hvalues⟩ key
    cases hget : r.get? key with
    | none =>
      rw [get?_eq_none_iff, hkeys, ← get?_eq_none_iff] at hget
      rw [hget]
      exact .none
    | some value =>
      obtain ⟨entry, hentry, hkey, rfl⟩ := mem_values.mp (mem_values_of_get? hget)
      have hlower := sameKey_iff.mp hkey
      cases hget' : r'.get? key with
      | none =>
        rw [get?_eq_none_iff, ← hkeys, ← get?_eq_none_iff, hget] at hget'
        nomatch hget'
      | some value' =>
        obtain ⟨entry', hentry', hkey', rfl⟩ := mem_values.mp (mem_values_of_get? hget')
        exact .some (hvalues entry hentry entry' hentry' (hlower.trans (sameKey_iff.mp hkey').symm))

end Record

/-! ## An equivalence -/

/-- No record in the value has two keys that differ in case only, and no decimal in it is no
    number. -/
structure Value.Proper (v : Value) : Prop where
  keyed : v.WellKeyed
  numeric : v.Throughout Value.IsNumeric

/-- No record in the record has two keys that differ in case only, and no decimal in it is no
    number. -/
def Record.Proper (r : Record) : Prop := (Value.complex r).Proper

namespace Value

variable {v v' v'' : Value} {items : List Value} {fields : Record}

/-- A scalar can be compared, unless it is a decimal that is no number. -/
theorem proper_of_scalar (hcomplex : v.complex? = none) (hlist : v.list? = none)
    (hnumeric : v.IsNumeric) : v.Proper where
  keyed := wellKeyed_of_scalar hcomplex hlist
  numeric := .scalar hcomplex hlist hnumeric

/-- A list can be compared if its items can. -/
theorem proper_list_iff : Proper (.list items) ↔ ∀ item ∈ items, item.Proper := by
  constructor
  · intro h item hitem
    exact ⟨wellKeyed_list_iff.mp h.keyed item hitem, throughout_list_iff.mp h.numeric item hitem⟩
  · intro h
    exact ⟨wellKeyed_list_iff.mpr fun item hitem => (h item hitem).keyed,
      .list fun item hitem => (h item hitem).numeric⟩

/-- A record can be compared if its values can and no two of its keys differ in case only. -/
theorem proper_complex_iff :
    Proper (.complex fields) ↔ fields.Distinct ∧ ∀ entry ∈ fields, entry.2.Proper := by
  constructor
  · intro h
    obtain ⟨hdistinct, hentries⟩ := wellKeyed_complex_iff.mp h.keyed
    exact ⟨hdistinct, fun entry hentry =>
      ⟨hentries entry hentry, throughout_complex_iff.mp h.numeric entry hentry⟩⟩
  · rintro ⟨hdistinct, h⟩
    exact ⟨wellKeyed_complex_iff.mpr ⟨hdistinct, fun entry hentry => (h entry hentry).keyed⟩,
      .complex fun entry hentry => (h entry hentry).numeric⟩

/-- What is found in such a record can be compared. -/
theorem Proper.get? (h : Proper (.complex fields)) {key : String}
    (hget : fields.get? key = some v) : v.Proper := by
  obtain ⟨stored, hmem⟩ := Record.get?_mem hget
  exact (proper_complex_iff.mp h).2 _ hmem

/-- What holds of scalars and goes from the parts of a value to the value holds of all of them. -/
@[induction_eliminator]
theorem Proper.byParts {motive : (v : Value) → v.Proper → Prop}
    (scalar : ∀ {v : Value} (h : v.Proper), v.complex? = none → v.list? = none → motive v h)
    (list : ∀ {items : List Value} (h : Proper (.list items)),
      (∀ item (hitem : item ∈ items), motive item (proper_list_iff.mp h item hitem)) →
        motive (.list items) h)
    (complex : ∀ {fields : Record} (h : Proper (.complex fields)),
      (∀ {key value} (hget : fields.get? key = some value), motive value (h.get? hget)) →
        motive (.complex fields) h)
    {v : Value} (h : v.Proper) : motive v h := by
  -- on the scalars in the value, which reach into all of its parts
  have hnumeric := h.numeric
  induction hnumeric with
  | scalar hcomplex hlist => exact scalar h hcomplex hlist
  | list _ ih => exact list h fun item hitem => ih item hitem (proper_list_iff.mp h item hitem)
  | complex _ ih =>
    refine complex h fun hget => ?_
    obtain ⟨stored, hmem⟩ := Record.get?_mem hget
    exact ih _ hmem (h.get? hget)

/-- What equals a list is a list of equal items. -/
theorem same_list_iff :
    Same (.list items) v' ↔ ∃ items', v' = .list items' ∧ List.Forall₂ Same items items' := by
  cases v' <;> simp [Same, same, sameItems_iff]

/-- What equals a record is an equal record. -/
theorem same_complex_iff :
    Same (.complex fields) v' ↔ ∃ fields', v' = .complex fields' ∧ fields.Same fields' := by
  cases v' <;> simp [Same, same, Record.Same, Record.same]

/-- What equals a record leads to equal values under each key. -/
theorem same_complex_iff_corresponds (h : Proper (.complex fields)) (h' : v'.Proper) :
    Same (.complex fields) v' ↔
      ∃ fields', v' = .complex fields' ∧ fields.Corresponds Same fields' := by
  rw [same_complex_iff]
  refine exists_congr fun fields' => and_congr_right ?_
  rintro rfl
  exact Record.same_iff_corresponds (proper_complex_iff.mp h).1 (proper_complex_iff.mp h').1

/-- A value that can be compared equals itself. -/
theorem Proper.same_self (h : v.Proper) : v.Same v :=
  h.keyed.alike_self.same_of_throughout h.numeric

/-- Equality is symmetric where values can be compared. -/
theorem Same.symm (h : v.Same v') (hv : v.Proper) (hv' : v'.Proper) : v'.Same v := by
  -- on the first value by its parts, with those of the second along
  induction hv generalizing v' with
  | scalar _ hcomplex hlist => exact h.symm_of_scalar hcomplex hlist
  | @list items hv ih =>
    obtain ⟨items', rfl, hitems⟩ := same_list_iff.mp h
    have hback : List.Forall₂ (flip Same) items items' := hitems.imp_of_mem
      fun item hitem item' hitem' heq => ih item hitem heq (proper_list_iff.mp hv' item' hitem')
    exact same_list_iff.mpr ⟨items, rfl, hback.flip⟩
  | complex hv ih =>
    obtain ⟨fields', rfl, hfields⟩ := (same_complex_iff_corresponds hv hv').mp h
    refine (same_complex_iff_corresponds hv' hv).mpr ⟨_, rfl, fun key => ?_⟩
    exact (hfields key).swap fun hget hget' heq => ih hget heq (hv'.get? hget')

/-- And there it is transitive. -/
theorem Same.trans (h : v.Same v') (h' : v'.Same v'') (hv : v.Proper) (hv' : v'.Proper)
    (hv'' : v''.Proper) : v.Same v'' := by
  induction hv generalizing v' v'' with
  | scalar _ hcomplex hlist => exact h.trans_of_scalar h' hcomplex hlist
  | list hv ih =>
    obtain ⟨items', rfl, hitems⟩ := same_list_iff.mp h
    obtain ⟨items'', rfl, hitems'⟩ := same_list_iff.mp h'
    obtain ⟨hlength, hsame⟩ := List.forall₂_iff_get.mp hitems
    obtain ⟨hlength', hsame'⟩ := List.forall₂_iff_get.mp hitems'
    rw [proper_list_iff] at hv' hv''
    refine same_list_iff.mpr
      ⟨_, rfl, List.forall₂_iff_get.mpr ⟨hlength.trans hlength', fun i hi hi'' => ?_⟩⟩
    have hi' : i < items'.length := hlength ▸ hi
    exact ih _ (List.get_mem _ ⟨i, hi⟩) (hsame i hi hi') (hsame' i hi' hi'')
      (hv' _ (List.get_mem items' ⟨i, hi'⟩)) (hv'' _ (List.get_mem items'' ⟨i, hi''⟩))
  | complex hv ih =>
    obtain ⟨fields', rfl, hfields⟩ := (same_complex_iff_corresponds hv hv').mp h
    obtain ⟨fields'', rfl, hfields'⟩ := (same_complex_iff_corresponds hv' hv'').mp h'
    refine (same_complex_iff_corresponds hv hv'').mpr ⟨_, rfl, fun key => ?_⟩
    exact (hfields key).comp (hfields' key) fun hget hget' hget'' heq heq' =>
      ih hget heq heq' (hv'.get? hget') (hv''.get? hget'')

/-! ## A congruence -/

/-- The values are proper and equal. -/
structure Equal (v v' : Value) : Prop where
  left : v.Proper
  right : v'.Proper
  same : v.Same v'

theorem equal_null : Equal .null .null := by
  have hnull : Proper .null := proper_of_scalar rfl rfl (by simp [IsNumeric])
  exact ⟨hnull, hnull, rfl⟩

/-- Equal values have equal parts. -/
theorem byParts_equal : ByParts Equal where
  down {v v'} h := by
    obtain ⟨hv, hv', h⟩ := h
    cases v with
    | list items =>
      obtain ⟨items', rfl, hitems⟩ := same_list_iff.mp h
      rw [proper_list_iff] at hv hv'
      refine .list (hitems.imp_of_mem fun item hitem item' hitem' heq => ?_)
      exact ⟨hv item hitem, hv' item' hitem', heq⟩
    | complex fields =>
      obtain ⟨fields', rfl, hfields⟩ := (same_complex_iff_corresponds hv hv').mp h
      refine .complex fun key => (hfields key).imp fun hget hget' heq => ?_
      exact ⟨hv.get? hget, hv'.get? hget', heq⟩
    -- a scalar, and what equals it
    | _ =>
      obtain ⟨hcomplex', hlist'⟩ := h.scalar rfl rfl
      exact .scalar rfl rfl hcomplex' hlist'
  up {items items'} h := by
    have hleft : ∀ item ∈ items, item.Proper :=
      ((List.forall₂_and_left _ _).mp (h.imp fun _ _ heq => ⟨heq.left, heq⟩)).1
    have hright : ∀ item' ∈ items', item'.Proper :=
      ((List.forall₂_and_left _ _).mp (h.flip.imp fun _ _ heq => ⟨heq.right, heq⟩)).1
    exact ⟨proper_list_iff.mpr hleft, proper_list_iff.mpr hright,
      same_list_iff.mpr ⟨items', rfl, h.imp fun _ _ heq => heq.same⟩⟩

end Value

namespace Record

variable {r r' : Record}

/-- Equal records correspond key by key. -/
theorem Same.corresponds (h : r.Same r') (hr : r.Proper) (hr' : r'.Proper) :
    r.Corresponds Value.Equal r' := by
  have hcorresponds : Value.Corresponds Value.Equal (.complex r) (.complex r') :=
    Value.byParts_equal.down ⟨hr, hr', h⟩
  cases hcorresponds with
  | scalar hcomplex => nomatch hcomplex
  | complex hfields => exact hfields

/-- Between records without keys that differ in case only and without decimals that are no numbers,
    equality is an equivalence.  It holds just if both have the same keys, up to case, and equal
    values under each, whatever the order of the entries and the casing of the keys.  And what a key
    addresses in equal records is equal or missing in both: an attribute, a sub-attribute of each
    element of a list, the data of an extension and attributes in it. -/
theorem same_congruence :
    Equivalence (fun r r' : { r : Record // r.Proper } => r.1.same r'.1 = true) ∧
      ∀ {r r' : Record}, r.Proper → r'.Proper →
        (r.same r' = true ↔
          (∀ lower, lower ∈ r.lowerKeys ↔ lower ∈ r'.lowerKeys) ∧
            ∀ entry ∈ r, ∀ entry' ∈ r', Text.lower entry.1 = Text.lower entry'.1 →
              entry.2.same entry'.2 = true) ∧
        (r.same r' = true →
          (∀ key, Option.Rel Value.Same (r.getAt? key .null) (r'.getAt? key .null)) ∧
            ∀ (catalog : Catalog) (source : Key.Source),
              Option.Rel Value.Same (read? catalog r source) (read? catalog r' source)) := by
  refine ⟨⟨fun r => ?_, fun {r r'} h => ?_, fun {r r' r''} h h' => ?_⟩, fun hr hr' => ⟨?_, ?_⟩⟩
  · exact Value.Proper.same_self r.2
  · have hsame : Value.Same (.complex r.1) (.complex r'.1) := h
    exact hsame.symm r.2 r'.2
  · have hsame : Value.Same (.complex r.1) (.complex r'.1) := h
    have hsame' : Value.Same (.complex r'.1) (.complex r''.1) := h'
    exact hsame.trans hsame' r.2 r'.2 r''.2
  · have hdistinct := (Value.proper_complex_iff.mp hr).1
    have hdistinct' := (Value.proper_complex_iff.mp hr').1
    exact (same_iff_corresponds hdistinct hdistinct').trans
      (corresponds_iff_entries hdistinct hdistinct')
  · intro h
    have hcorresponds := Same.corresponds h hr hr'
    have hequal := Value.byParts_equal
    refine ⟨fun key => ?_, fun catalog source => ?_⟩
    · exact (hcorresponds.getAt? hequal key Value.equal_null).imp fun _ _ heq => heq.same
    · exact (hcorresponds.read? hequal Value.equal_null catalog source).imp fun _ _ heq => heq.same

/-- A mailbox with two addresses, and with data of an extension. -/
def mailbox : Record :=
  [ ("emails", .list [.complex [("value", .string "a@x"), ("type", .string "work")],
      .complex [("value", .string "b@x")]]),
    ("urn:Staff", .complex [("badges", .integer 7)]) ]

/-- The same mailbox with its keys in another order and casing. -/
def mailboxReordered : Record :=
  [ ("URN:staff", .complex [("Badges", .integer 7)]),
    ("Emails", .list [.complex [("TYPE", .string "work"), ("Value", .string "a@x")],
      .complex [("VALUE", .string "b@x")]]) ]

/-- Both mailboxes can be compared. -/
theorem proper_mailbox : mailbox.Proper ∧ mailboxReordered.Proper := by
  have hstring : ∀ s, Value.Proper (.string s) := fun s =>
    Value.proper_of_scalar rfl rfl (by simp [Value.IsNumeric])
  have hinteger : ∀ n, Value.Proper (.integer n) := fun n =>
    Value.proper_of_scalar rfl rfl (by simp [Value.IsNumeric])
  constructor <;>
    simp only [Record.Proper, mailbox, mailboxReordered, Value.proper_complex_iff,
      Value.proper_list_iff, List.forall_mem_cons, List.not_mem_nil, false_implies, implies_true,
      and_true, hstring, hinteger] <;>
    decide +kernel

/-- Both mailboxes are equal, and so are the types of the addresses in them: the second address has
    none. -/
theorem same_congruence_mailbox :
    mailbox.Proper ∧ mailboxReordered.Proper ∧ mailbox.same mailboxReordered = true ∧
      mailboxReordered.same mailbox = true ∧
      mailbox.getAt? emailTypes .null = some (.list [.string "work", .null]) ∧
      Option.Rel Value.Same (mailbox.getAt? emailTypes .null)
        (mailboxReordered.getAt? emailTypes .null) := by
  obtain ⟨hmailbox, hreordered⟩ := proper_mailbox
  obtain ⟨hequivalence, hlaws⟩ := same_congruence
  have hsame : mailbox.same mailboxReordered = true := by decide +kernel
  have hsymm : mailboxReordered.same mailbox = true :=
    @hequivalence.symm ⟨mailbox, hmailbox⟩ ⟨mailboxReordered, hreordered⟩ hsame
  have htypes : mailbox.getAt? emailTypes .null = some (.list [.string "work", .null]) := by
    rfl
  exact ⟨hmailbox, hreordered, hsame, hsymm, htypes,
    ((hlaws hmailbox hreordered).2 hsame).1 emailTypes⟩

end Record

end Scim
