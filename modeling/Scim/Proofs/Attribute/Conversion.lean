import Scim.Proofs.Attribute.Alike
import Scim.Proofs.Schema.Parts
import Scim.Proofs.Value.Plain

/-!
  # Values are read from what they are written as

  Reading goes by the kind that an attribute declares, writing by the value at hand, and both leave
  alone what is not of the declared kind.  What it means that the one is the way back from the other
  is said once, of any two conversions (`Value.RoundTrips`), and carried from the kinds up:

    * a simple kind has it, because a date-time is read from its text (`SimpleKind.roundTrips`);
    * it is kept where the conversion of single values becomes one of lists, too
      (`AttributeOf.roundTrips_convertWith`);
    * it is kept where the conversions of sub-attributes become one of complex values.  The crux is
      `AttributeOf.convertRecord_convertRecord`: what is written under the declared names is found
      under them again.
-/

namespace Scim

/-! ## Ways there and back -/

/-- What is read can be written as JSON, and is read again from what is written. -/
structure Value.RoundTrips (read write : Value → Value) : Prop where
  readSingle : ∀ v, v.list? = none → (read v).list? = none
  writeSingle : ∀ v, v.list? = none → (write v).list? = none
  readAlike : Value.KeepsAlike read
  writeAlike : Value.KeepsAlike write
  /-- What was read is not changed when it is read once more. -/
  again : ∀ v, read (read v) = read v
  back : ∀ v, v.Throughout Value.FitsJson → read (write (read v)) = read v
  fits : ∀ v, v.Throughout Value.FitsJson → (write (read v)).Throughout Value.FitsJson
  numeric : ∀ v, v.Throughout Value.FitsJson → (read v).Throughout Value.IsNumeric

/-! ## Lists -/

namespace AttributeOf

variable {κ : Type}

section

variable (a : AttributeOf κ) {P Q : Value → Prop} {f g : Value → Value} {v : Value}

/-- A list is converted item by item where there may be many values, and as a whole otherwise. -/
theorem convertWith_list (f : Value → Value) (items : List Value) :
    a.convertWith f none (.list items) =
      if a.multiValued then .list (items.map f) else f (.list items) := rfl

/-- Other values are converted as they are. -/
theorem convertWith_of_single (h : v.list? = none) : a.convertWith f none v = f v := by
  cases v with
  | list items => nomatch h
  | _ => rfl

/-- Two conversions one after the other. -/
theorem convertWith_convertWith (hg : ∀ v, v.list? = none → (g v).list? = none) (v : Value) :
    a.convertWith f none (a.convertWith g none v) = a.convertWith (fun v => f (g v)) none v := by
  cases v with
  | list items =>
    cases hmulti : a.multiValued with
    | true => simp only [convertWith_list, hmulti, if_true, List.map_map, Function.comp_def]
    | false =>
      -- without many values a list is nothing special
      have hplain : ∀ (f : Value → Value) (v : Value), a.convertWith f none v = f v := by
        intro f v
        cases v with
        | list items => rw [convertWith_list, hmulti, if_neg Bool.false_ne_true]
        | _ => rfl
      rw [hplain, hplain, hplain]
  | _ => exact a.convertWith_of_single (hg _ rfl)

/-- Conversions that agree throughout a value agree on it as a whole. -/
theorem convertWith_congr (h : ∀ v, v.Throughout P → f v = g v) (hv : v.Throughout P) :
    a.convertWith f none v = a.convertWith g none v := by
  cases v with
  | list items =>
    have hitems := Value.throughout_list_iff.mp hv
    have hmap : items.map f = items.map g :=
      List.map_congr_left fun item hitem => h item (hitems item hitem)
    rw [convertWith_list, convertWith_list, hmap, h _ hv]
  | _ => exact h _ hv

/-- What conversion brings about in elements holds throughout what is converted. -/
theorem throughout_convertWith (h : ∀ v, v.Throughout P → (f v).Throughout Q)
    (hv : v.Throughout P) : (a.convertWith f none v).Throughout Q := by
  cases v with
  | list items =>
    have hitems := Value.throughout_list_iff.mp hv
    rw [convertWith_list]
    split
    · exact .list (List.forall_mem_map.mpr fun item hitem => h item (hitems item hitem))
    · exact h _ hv
  | _ => exact h _ hv

/-- If elements can be read back, then so can the values that consist of them. -/
theorem roundTrips_convertWith {read write : Value → Value} (h : Value.RoundTrips read write) :
    Value.RoundTrips (a.convertWith read none) (a.convertWith write none) where
  readSingle v hv := by
    rw [a.convertWith_of_single hv]
    exact h.readSingle v hv
  writeSingle v hv := by
    rw [a.convertWith_of_single hv]
    exact h.writeSingle v hv
  readAlike := a.convertWith_keepsAlike h.readAlike (by simp)
  writeAlike := a.convertWith_keepsAlike h.writeAlike (by simp)
  again v := by
    rw [a.convertWith_convertWith h.readSingle]
    simp only [h.again]
  back v hv := by
    -- three conversions become one of elements, from the inside out
    rw [a.convertWith_convertWith h.readSingle, a.convertWith_convertWith]
    · exact a.convertWith_congr h.back hv
    · exact fun v hv => h.writeSingle _ (h.readSingle v hv)
  fits v hv := by
    rw [a.convertWith_convertWith h.readSingle]
    exact a.throughout_convertWith h.fits hv
  numeric v hv := a.throughout_convertWith h.numeric hv

end

/-! ## Records -/

section

variable {attrs : AttributeSet κ} {f g : AttributeOf κ → Value → Value} {P Q : Value → Prop}

/-- Names that differ leave records without repeated keys. -/
theorem distinct_convertRecord (attrs : AttributeSet κ) (f : AttributeOf κ → Value → Value)
    (fields : Record) : Record.Distinct (convertRecord attrs.toList f fields) := by
  refine Record.distinct_filterMap attrs.distinct fun a _ entry hentry => ?_
  obtain ⟨value, -, rfl⟩ := Option.map_eq_some_iff.mp hentry
  rfl

/-- What was converted is found under the declared name. -/
theorem get?_convertRecord {a : AttributeOf κ} (ha : a ∈ attrs.toList) (fields : Record) :
    Record.get? (convertRecord attrs.toList g fields) a.name.text =
      (Record.get? fields a.name.text).map (g a) := by
  refine Option.ext fun value => ?_
  rw [(distinct_convertRecord attrs g fields).get?_eq_some_iff, Record.mem_values]
  constructor
  · -- an entry with the key was made for some attribute, and names are not shared
    rintro ⟨entry, hentry, hsame, rfl⟩
    obtain ⟨b, hb, hmade⟩ := List.mem_filterMap.mp hentry
    obtain ⟨stored, hstored, rfl⟩ := Option.map_eq_some_iff.mp hmade
    obtain rfl := attrs.eq_of_sameKey hb ha hsame
    exact Option.map_eq_some_iff.mpr ⟨stored, hstored, rfl⟩
  · intro hvalue
    obtain ⟨stored, hstored, rfl⟩ := Option.map_eq_some_iff.mp hvalue
    refine ⟨(a.name.text, g a stored), List.mem_filterMap.mpr ⟨a, ha, ?_⟩,
      Record.sameKey_iff.mpr rfl, rfl⟩
    rw [hstored, Option.map_some]

/-- Two conversions one after the other. -/
theorem convertRecord_convertRecord (fields : Record) :
    convertRecord attrs.toList f (convertRecord attrs.toList g fields) =
      convertRecord attrs.toList (fun a v => f a (g a v)) fields := by
  refine List.filterMap_congr fun a ha => ?_
  rw [get?_convertRecord ha, Option.map_map]
  rfl

/-- Conversions that agree throughout a record convert it alike. -/
theorem convertRecord_congr {fields : Record}
    (h : ∀ a ∈ attrs.toList, ∀ v, v.Throughout P → f a v = g a v) (hfields : fields.Throughout P) :
    convertRecord attrs.toList f fields = convertRecord attrs.toList g fields := by
  refine List.filterMap_congr fun a ha => Option.map_congr fun value hvalue => ?_
  rw [h a ha value (Value.Throughout.get? hfields hvalue)]

/-- What conversion brings about in values holds throughout the record. -/
theorem throughout_convertRecord {fields : Record}
    (h : ∀ a ∈ attrs.toList, ∀ v, v.Throughout P → (f a v).Throughout Q)
    (hfields : fields.Throughout P) :
    Record.Throughout Q (convertRecord attrs.toList f fields) := by
  refine .complex fun entry hentry => ?_
  obtain ⟨a, ha, hmade⟩ := List.mem_filterMap.mp hentry
  obtain ⟨value, hvalue, rfl⟩ := Option.map_eq_some_iff.mp hmade
  exact h a ha value (Value.Throughout.get? hfields hvalue)

/-! What was read attribute by attribute is read again, and from what is written of it. -/

variable {read write : AttributeOf κ → Value → Value} {fields : Record}

/-- A record that was read is not changed by being read once more. -/
theorem again_convertRecord (h : ∀ a ∈ attrs.toList, Value.RoundTrips (read a) (write a))
    (fields : Record) :
    convertRecord attrs.toList read (convertRecord attrs.toList read fields) =
      convertRecord attrs.toList read fields := by
  rw [convertRecord_convertRecord]
  refine List.filterMap_congr fun a ha => Option.map_congr fun value _ => ?_
  exact congrArg (Prod.mk a.name.text) ((h a ha).again value)

/-- A record that was read is read again from what is written of it. -/
theorem back_convertRecord (h : ∀ a ∈ attrs.toList, Value.RoundTrips (read a) (write a))
    (hfields : fields.Throughout Value.FitsJson) :
    convertRecord attrs.toList read
        (convertRecord attrs.toList write (convertRecord attrs.toList read fields)) =
      convertRecord attrs.toList read fields := by
  rw [convertRecord_convertRecord, convertRecord_convertRecord]
  exact convertRecord_congr (fun a ha => (h a ha).back) hfields

/-- What is written of a record that was read can be written as JSON. -/
theorem fits_convertRecord (h : ∀ a ∈ attrs.toList, Value.RoundTrips (read a) (write a))
    (hfields : fields.Throughout Value.FitsJson) :
    Record.Throughout Value.FitsJson
      (convertRecord attrs.toList write (convertRecord attrs.toList read fields)) := by
  rw [convertRecord_convertRecord]
  exact throughout_convertRecord (fun a ha => (h a ha).fits) hfields

end

end AttributeOf

/-! ## Kinds -/

/-- Writing date-times as texts makes no difference between alike values. -/
theorem Value.withoutDateTime_keepsAlike : Value.KeepsAlike Value.withoutDateTime := by
  intro v v' h
  cases h with
  | list h => exact .list h
  | complex h => exact h
  | _ => exact .scalar rfl rfl

/-- What a simple kind reads a value as: date-times from their text, decimals from integers, and all
    else as it is. -/
theorem SimpleKind.deserialize_cases (k : SimpleKind) (v : Value) :
    k.deserialize v = v ∨
      (∃ s t, v = .string s ∧ DateTime.parse? s = some t ∧ k = .dateTime ∧
        k.deserialize v = .dateTime t) ∨
      ∃ n : Int64, v = .integer n ∧ k = .decimal ∧
        k.deserialize v = .decimal (Decimal.ofInt n.toInt) := by
  unfold deserialize
  split
  · -- a text for a date-time, if it can be read as one
    rename_i s
    split
    · rename_i t ht
      exact .inr (.inl ⟨s, t, rfl, ht, rfl, rfl⟩)
    · exact .inl rfl
  · exact .inr (.inr ⟨_, rfl, rfl, rfl⟩)
  · exact .inl rfl

/-- An integer is within the range of decimals. -/
theorem Value.isFinite_ofInt64 (n : Int64) : (Decimal.ofInt n.toInt).isFinite = true := by
  have hlow := n.le_toInt
  have hhigh := n.toInt_lt
  exact Decimal.isFinite_ofInt (by omega)

namespace Value

variable {v : Value}

/-- What fits JSON has no date-times to be written as texts. -/
theorem withoutDateTime_of_fits (h : v.Throughout FitsJson) : v.withoutDateTime = v := by
  cases v with
  | dateTime t => exact (h.of_scalar rfl rfl).elim
  | _ => rfl

end Value

/-- A simple kind reads what was written of what it reads. -/
theorem SimpleKind.roundTrips (k : SimpleKind) :
    Value.RoundTrips k.deserialize Value.withoutDateTime where
  readSingle v hv := by
    rcases k.deserialize_cases v with hself | ⟨s, t, -, -, -, hread⟩ | ⟨n, -, -, hread⟩
    · rwa [hself]
    · rw [hread]
      rfl
    · rw [hread]
      rfl
  writeSingle v hv := by
    cases v with
    | list => nomatch hv
    | _ => rfl
  readAlike := k.deserialize_keepsAlike
  writeAlike := Value.withoutDateTime_keepsAlike
  again v := by
    rcases k.deserialize_cases v with hself | ⟨s, t, -, -, rfl, hread⟩ | ⟨n, -, rfl, hread⟩
    · -- what was left alone is left alone again
      rw [hself, hself]
    · rw [hread]
      rfl
    · rw [hread]
      rfl
  back v hv := by
    rcases k.deserialize_cases v with hself | ⟨s, t, -, hparse, rfl, hread⟩ | ⟨n, -, rfl, hread⟩
    · rw [hself, Value.withoutDateTime_of_fits hv, hself]
    · -- the text need not be the one that the date-time was read from
      rw [hread]
      show SimpleKind.deserialize .dateTime (.string t.render) = .dateTime t
      simp only [deserialize, DateTime.parse?_render hparse]
    · rw [hread]
      rfl
  fits v hv := by
    rcases k.deserialize_cases v with hself | ⟨s, t, -, -, -, hread⟩ | ⟨n, -, -, hread⟩
    · rwa [hself, Value.withoutDateTime_of_fits hv]
    · rw [hread]
      exact .scalar rfl rfl trivial
    · rw [hread]
      exact .scalar rfl rfl (Value.isFinite_ofInt64 n)
  numeric v hv := by
    rcases k.deserialize_cases v with hself | ⟨s, t, -, -, -, hread⟩ | ⟨n, -, -, hread⟩
    · rw [hself]
      exact hv.isNumeric
    · rw [hread]
      refine .scalar rfl rfl fun d hd => ?_
      cases hd
    · rw [hread]
      refine .scalar rfl rfl fun d hd => ?_
      obtain rfl := Value.decimal.inj hd
      exact Decimal.isNaN_ofInt n.toInt

/-! ## Attributes -/

/-- The attribute has no converters of its own. -/
structure Characteristics.NoConverters (c : Characteristics) : Prop where
  deserializer : c.deserializer = none
  serializer : c.serializer = none

/-- A sub-attribute without converters reads what was written of what it reads. -/
theorem SubAttribute.roundTrips {a : SubAttribute} (h : a.toCharacteristics.NoConverters) :
    Value.RoundTrips (SubAttribute.deserialize a) (SubAttribute.serialize a) := by
  have hsingle := a.roundTrips_convertWith a.kind.roundTrips
  unfold SubAttribute.deserialize SubAttribute.serialize
  rw [h.deserializer, h.serializer]
  exact hsingle

/-- Neither the attribute nor its sub-attributes have converters of their own. -/
structure Attribute.NoConverters (a : Attribute) : Prop where
  own : a.toCharacteristics.NoConverters
  subs : ∀ subs ∈ Attribute.subs? a, ∀ sub ∈ subs.toList, sub.toCharacteristics.NoConverters

/-- A complex value is read and written by its sub-attributes. -/
theorem Kind.roundTrips_complex {subs : AttributeSet SimpleKind}
    (h : ∀ sub ∈ subs.toList,
      Value.RoundTrips (SubAttribute.deserialize sub) (SubAttribute.serialize sub)) :
    Value.RoundTrips (Kind.deserialize (.complex subs)) (Kind.serialize (.complex subs)) where
  readSingle v hv := by
    cases v with
    | list => nomatch hv
    | _ => rfl
  writeSingle v hv := by
    cases v with
    | list => nomatch hv
    | _ => rfl
  readAlike := Kind.deserialize_complex_keepsAlike fun sub hsub => (h sub hsub).readAlike
  writeAlike := by
    intro v v' halike
    cases halike with
    | complex hfields =>
      exact AttributeOf.convertRecord_alike (fun sub hsub => (h sub hsub).writeAlike) hfields
    | list hitems => exact .list hitems
    | _ => exact .scalar rfl rfl
  again v := by
    cases v with
    | complex fields => exact congrArg Value.complex (AttributeOf.again_convertRecord h fields)
    | _ => rfl
  back v hv := by
    cases v with
    | complex fields => exact congrArg Value.complex (AttributeOf.back_convertRecord h hv)
    -- JSON has no date-times
    | dateTime t => exact (hv.of_scalar rfl rfl).elim
    | _ => rfl
  fits v hv := by
    cases v with
    | complex fields => exact AttributeOf.fits_convertRecord h hv
    | dateTime t => exact (hv.of_scalar rfl rfl).elim
    | _ => exact hv
  numeric v hv := by
    cases v with
    | complex fields =>
      exact AttributeOf.throughout_convertRecord (fun sub hsub => (h sub hsub).numeric) hv
    | _ => exact hv.isNumeric

/-- A kind reads what was written of what it reads. -/
theorem Attribute.kind_roundTrips {a : Attribute} (h : Attribute.NoConverters a) :
    Value.RoundTrips a.kind.deserialize a.kind.serialize := by
  cases hkind : a.kind with
  | simple k => exact k.roundTrips
  | complex subs =>
    have hsubs := h.subs subs (by simp only [subs?, hkind, Option.mem_def])
    exact Kind.roundTrips_complex fun sub hsub => SubAttribute.roundTrips (hsubs sub hsub)

/-- An attribute without converters reads what was written of what it reads. -/
theorem Attribute.roundTrips {a : Attribute} (h : Attribute.NoConverters a) :
    Value.RoundTrips (Attribute.deserialize a) (Attribute.serialize a) := by
  have hsingle := a.roundTrips_convertWith (Attribute.kind_roundTrips h)
  unfold Attribute.deserialize Attribute.serialize
  rw [h.own.deserializer, h.own.serializer]
  exact hsingle

end Scim
