import Scim.Proofs.Attribute.Conversion
import Scim.Proofs.Schema.Alike

/-!
  # Resources are read from what they are written as

  A resource is read attribute by attribute, and what is read is kept under the declared names and
  URIs.  There it is found again (`get?_convert_name`, `get?_convert_uri`), so that two conversions
  one after the other are one conversion (`convert_convert`), and the way there and back of a resource
  is that of its attributes (`Value.RoundTrips`).

  On the way lies JSON, which sorts the keys and knows them by their exact casing.  It gives back a
  record that is alike, alike records are read as alike records, and these are equal:
  `wire_round_trip` puts the three together.
-/

namespace Scim

namespace Schema

variable {s : Schema} {p : Part} {f g : Attribute → Value → Value} {r : Record}

/-! ## Where converted values lie -/

/-- What an extension becomes, if there is a record of its data. -/
def Part.converted (f : Attribute → Value → Value) (r : Record) (p : Part) : Record :=
  match Record.get? r p.uri.text with
  | some (.complex fields) =>
    [(p.uri.text, .complex (AttributeOf.convertRecord p.attributes.toList f fields))]
  | _ => []

/-- A resource is converted attribute by attribute, the base first and then each extension. -/
theorem convert_eq (s : Schema) (f : Attribute → Value → Value) (r : Record) :
    s.convert f r = AttributeOf.convertRecord s.attributes.toList f r ++
      s.extensionParts.flatMap (Part.converted f r) := rfl

/-- A record of data is converted under the URI of the extension. -/
theorem Part.converted_of_complex {fields : Record}
    (h : Record.get? r p.uri.text = some (.complex fields)) : p.converted f r =
      [(p.uri.text, .complex (AttributeOf.convertRecord p.attributes.toList f fields))] := by
  rw [converted, h]

/-- Nothing becomes of an extension without one. -/
theorem Part.converted_of_not_complex
    (h : ¬∃ fields, Record.get? r p.uri.text = some (.complex fields)) : p.converted f r = [] := by
  unfold converted
  split
  · rename_i fields hget
    exact absurd ⟨fields, hget⟩ h
  · rfl

/-- So the only entry of an extension is that of its data. -/
theorem Part.mem_converted_iff {entry : String × Value} : entry ∈ p.converted f r ↔
    ∃ fields, Record.get? r p.uri.text = some (.complex fields) ∧ entry =
      (p.uri.text, .complex (AttributeOf.convertRecord p.attributes.toList f fields)) := by
  by_cases h : ∃ fields, Record.get? r p.uri.text = some (.complex fields)
  · obtain ⟨fields, hget⟩ := h
    rw [converted_of_complex hget, List.mem_singleton, hget]
    constructor
    · exact fun hentry => ⟨fields, rfl, hentry⟩
    · rintro ⟨fields', hfields, hentry⟩
      obtain rfl := Value.complex.inj (Option.some.inj hfields)
      exact hentry
  · rw [converted_of_not_complex h]
    exact iff_of_false List.not_mem_nil fun ⟨fields, hget, _⟩ => h ⟨fields, hget⟩

/-- A converted resource is put together from attributes and extensions. -/
theorem assembles_convert (s : Schema) (f : Attribute → Value → Value) (r : Record) :
    s.Assembles (AttributeOf.convertRecord s.attributes.toList f r) (Part.converted f r) where
  names entry hentry := by
    obtain ⟨a, -, hmade⟩ := List.mem_filterMap.mp hentry
    obtain ⟨value, -, rfl⟩ := Option.map_eq_some_iff.mp hmade
    exact ⟨a.name, rfl⟩
  uris p _ := by
    unfold Part.converted
    split
    · exact .inr ⟨_, rfl⟩
    · exact .inl rfl

/-- What an attribute of the base was converted to is found under its name. -/
theorem get?_convert_name {a : Attribute} (ha : a ∈ s.attributes.toList) :
    Record.get? (s.convert f r) a.name.text = (Record.get? r a.name.text).map (f a) := by
  have hbase := AttributeOf.distinct_convertRecord s.attributes f r
  rw [← AttributeOf.get?_convertRecord ha, convert_eq, (s.assembles_convert f r).get?_name hbase]

/-- What the data of an extension was converted to is found under its URI. -/
theorem get?_convert_uri (hp : p ∈ s.extensionParts) {value : Value} :
    Record.get? (s.convert f r) p.uri.text = some value ↔
      ∃ fields, Record.get? r p.uri.text = some (.complex fields) ∧
        value = .complex (AttributeOf.convertRecord p.attributes.toList f fields) := by
  have hbase := AttributeOf.distinct_convertRecord s.attributes f r
  rw [convert_eq, (s.assembles_convert f r).get?_uri_eq_some hbase hp, Part.mem_converted_iff]
  simp only [Prod.mk.injEq, true_and]

/-! ## Conversions one after the other -/

/-- Two conversions one after the other are one. -/
theorem convert_convert (s : Schema) (f g : Attribute → Value → Value) (r : Record) :
    s.convert f (s.convert g r) = s.convert (fun a v => f a (g a v)) r := by
  rw [convert_eq s f, convert_eq s (fun a v => f a (g a v))]
  -- the base, and then the extensions
  congr 1
  · refine List.filterMap_congr fun a ha => ?_
    rw [get?_convert_name ha, Option.map_map]
    rfl
  · refine List.flatMap_congr fun p hp => ?_
    by_cases h : ∃ fields, Record.get? r p.uri.text = some (.complex fields)
    · obtain ⟨fields, hget⟩ := h
      have hconverted := (get?_convert_uri (f := g) hp).mpr ⟨fields, hget, rfl⟩
      rw [Part.converted_of_complex hconverted, Part.converted_of_complex hget,
        AttributeOf.convertRecord_convertRecord]
    · -- an extension without data has none after the first conversion either
      have hnone : ¬∃ fields, Record.get? (s.convert g r) p.uri.text = some (.complex fields) := by
        rintro ⟨fields, hfields⟩
        obtain ⟨fields, hget, -⟩ := (get?_convert_uri hp).mp hfields
        exact h ⟨fields, hget⟩
      rw [Part.converted_of_not_complex hnone, Part.converted_of_not_complex h]

section

variable {P Q : Value → Prop}

/-- Conversions that agree on values of some sort agree on resources with such values. -/
theorem convert_congr (h : ∀ p ∈ s.parts, ∀ a ∈ p.attributes.toList, ∀ v, v.Throughout P →
    f a v = g a v) (hr : r.Throughout P) : s.convert f r = s.convert g r := by
  rw [convert_eq, convert_eq]
  congr 1
  · exact AttributeOf.convertRecord_congr (h s.basePart List.mem_cons_self) hr
  · refine List.flatMap_congr fun p hp => ?_
    by_cases hdata : ∃ fields, Record.get? r p.uri.text = some (.complex fields)
    · obtain ⟨fields, hget⟩ := hdata
      have hfields : Record.Throughout P fields := Value.Throughout.get? hr hget
      rw [Part.converted_of_complex hget, Part.converted_of_complex hget,
        AttributeOf.convertRecord_congr (h p (mem_parts_of_mem_extensionParts hp)) hfields]
    · rw [Part.converted_of_not_complex hdata, Part.converted_of_not_complex hdata]

/-- A resource is converted to values of some sort throughout if its attributes are. -/
theorem throughout_convert (h : ∀ p ∈ s.parts, ∀ a ∈ p.attributes.toList, ∀ v, v.Throughout P →
    (f a v).Throughout Q) (hr : r.Throughout P) : (s.convert f r).Throughout Q := by
  refine .complex fun entry hentry => ?_
  rw [convert_eq] at hentry
  -- an attribute of the base, or the data of an extension
  rcases List.mem_append.mp hentry with hentry | hentry
  · have hbase := AttributeOf.throughout_convertRecord (h s.basePart List.mem_cons_self) hr
    exact Value.throughout_complex_iff.mp hbase entry hentry
  · obtain ⟨p, hp, hentry⟩ := List.mem_flatMap.mp hentry
    obtain ⟨fields, hget, rfl⟩ := Part.mem_converted_iff.mp hentry
    have hfields : Record.Throughout P fields := Value.Throughout.get? hr hget
    exact AttributeOf.throughout_convertRecord (h p (mem_parts_of_mem_extensionParts hp)) hfields

end

/-! ## The wire -/

/-- No attribute of the schema has converters of its own. -/
def NoConverters (s : Schema) : Prop :=
  ∀ p ∈ s.parts, ∀ a ∈ p.attributes.toList, Attribute.NoConverters a

/-- A resource that was read is not changed when it is read once more, and it is equal to what is
    read of its JSON. -/
theorem wire_round_trip (hs : s.NoConverters) {d : Record} (hkeyed : d.WellKeyed)
    (hfits : d.Throughout Value.FitsJson) :
    s.deserialize (s.deserialize d) = s.deserialize d ∧
      ∃ back, Record.ofValue (Value.ofJson (s.serialize (s.deserialize d))) = .ok back ∧
        (s.deserialize back).same (s.deserialize d) = true := by
  have htrips : ∀ p ∈ s.parts, ∀ a ∈ p.attributes.toList,
      Value.RoundTrips (Attribute.deserialize a) (Attribute.serialize a) :=
    fun p hp a ha => Attribute.roundTrips (hs p hp a ha)
  have hreadAlike : ∀ p ∈ s.parts, ∀ a ∈ p.attributes.toList,
      Value.KeepsAlike (Attribute.deserialize a) := fun p hp a ha => (htrips p hp a ha).readAlike
  have hwriteAlike : ∀ p ∈ s.parts, ∀ a ∈ p.attributes.toList,
      Value.KeepsAlike (Attribute.serialize a) := fun p hp a ha => (htrips p hp a ha).writeAlike
  -- what is written fits JSON, and it is read as what it was written of
  let written := s.convert Attribute.serialize (s.deserialize d)
  have hwritten : written.WellKeyed := by
    have halike := convert_alike hwriteAlike (convert_alike hreadAlike hkeyed.alike_self)
    exact halike.wellKeyed
  have hwrittenFits : written.Throughout Value.FitsJson := by
    show Record.Throughout _ (s.convert _ (s.convert _ d))
    rw [convert_convert]
    exact throughout_convert (fun p hp a ha => (htrips p hp a ha).fits) hfits
  have hread : s.deserialize written = s.deserialize d := by
    show s.convert _ (s.convert _ (s.convert _ d)) = s.convert _ d
    rw [convert_convert, convert_convert]
    exact convert_congr (fun p hp a ha => (htrips p hp a ha).back) hfits
  obtain ⟨back, hback, halike⟩ := Record.exists_ofValue_ofJson hwritten hwrittenFits
  refine ⟨?_, back, hback, ?_⟩
  · show s.convert _ (s.convert _ d) = s.convert _ d
    rw [convert_convert]
    exact convert_congr (fun p hp a ha v _ => (htrips p hp a ha).again v) hfits
  · have hsame : (s.deserialize d).Alike (s.deserialize back) :=
      hread ▸ convert_alike hreadAlike halike
    exact hsame.same_of_throughout
      (throughout_convert (fun p hp a ha => (htrips p hp a ha).numeric) hfits)

/-- A member of staff with the time of the record, keys in other casings and a name that is none. -/
def recordedStaffData : Record :=
  [ ("META", .complex [("Created", .string "2024-02-29t23:59:60.5-01:30")]),
    ("userName", .list [.decimal (Decimal.ofInt 7)]),
    ("URN:staff", .complex [("badges", .list [.complex [("NUMBER", .string "7")]])]) ]

/-- No record in the resource has two keys that differ in case only. -/
theorem wellKeyed_recordedStaffData : recordedStaffData.WellKeyed := by
  have hscalar : ∀ {v : Value}, v.complex? = none ∧ v.list? = none → v.WellKeyed :=
    fun h => Value.wellKeyed_of_scalar h.1 h.2
  have hsingle : ∀ {key : String} {v : Value}, v.WellKeyed →
      Value.WellKeyed (.complex [(key, v)]) :=
    fun h => Value.wellKeyed_complex_iff.mpr ⟨by simp [Record.Distinct], by simpa using h⟩
  have hlist : ∀ {v : Value}, v.WellKeyed → Value.WellKeyed (.list [v]) :=
    fun h => Value.wellKeyed_list_iff.mpr (by simpa using h)
  refine Value.wellKeyed_complex_iff.mpr ⟨by decide +kernel, ?_⟩
  simp only [recordedStaffData, List.forall_mem_cons]
  exact ⟨hsingle (hscalar ⟨rfl, rfl⟩), hlist (hscalar ⟨rfl, rfl⟩),
    hsingle (hlist (hsingle (hscalar ⟨rfl, rfl⟩))), by simp⟩

/-- JSON can hold all scalars in it. -/
theorem fitsJson_recordedStaffData : recordedStaffData.Throughout Value.FitsJson := by
  have hsingle : ∀ {key : String} {v : Value}, v.Throughout Value.FitsJson →
      Value.Throughout Value.FitsJson (.complex [(key, v)]) := fun h => .complex (by simpa using h)
  have hlist : ∀ {v : Value}, v.Throughout Value.FitsJson →
      Value.Throughout Value.FitsJson (.list [v]) := fun h => .list (by simpa using h)
  have hfinite : (Decimal.ofInt 7).isFinite = true := Decimal.isFinite_ofInt (by decide)
  refine .complex ?_
  simp only [recordedStaffData, List.forall_mem_cons]
  exact ⟨hsingle (.scalar rfl rfl trivial), hlist (.scalar rfl rfl hfinite),
    hsingle (hlist (hsingle (.scalar rfl rfl trivial))), by simp⟩

/-- The resource makes its way over the wire. -/
theorem wire_round_trip_recordedStaffData :
    staffSchema.NoConverters ∧ recordedStaffData.WellKeyed ∧
      recordedStaffData.Throughout Value.FitsJson ∧
      ∃ back, Record.ofValue (Value.ofJson
          (staffSchema.serialize (staffSchema.deserialize recordedStaffData))) = .ok back ∧
        (staffSchema.deserialize back).same (staffSchema.deserialize recordedStaffData) = true := by
  have hs : staffSchema.NoConverters := by
    have hown : ∀ p ∈ staffSchema.parts, ∀ a ∈ p.attributes.toList,
        (a.deserializer = none ∧ a.serializer = none) ∧
          ∀ subs ∈ Attribute.subs? a, ∀ sub ∈ subs.toList,
            sub.deserializer = none ∧ sub.serializer = none := by
      decide +kernel
    intro p hp a ha
    have ⟨hattr, hsubs⟩ := hown p hp a ha
    exact ⟨⟨hattr.1, hattr.2⟩, fun subs hmem sub hsub =>
      ⟨(hsubs subs hmem sub hsub).1, (hsubs subs hmem sub hsub).2⟩⟩
  exact ⟨hs, wellKeyed_recordedStaffData, fitsJson_recordedStaffData,
    (wire_round_trip hs wellKeyed_recordedStaffData fitsJson_recordedStaffData).2⟩

end Schema

end Scim
