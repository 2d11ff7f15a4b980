import Mathlib.Data.List.Nodup
import Scim.Proofs.Record.Alike
import Scim.Proofs.Reference
import Scim.Proofs.Text.Casing
import Scim.Record.Access
import Scim.Schema.Validation

/-!
  # Where the attributes of a resource lie

  The keys of a resource do not get in each other's way.  Attributes of one set differ in their
  names, parts of a schema differ in their URIs, and a URI is no name, since it holds a colon.  So
  what lies under a key belongs to one attribute or one extension and to nothing else.
-/

namespace Scim

/-! ## Keys -/

/-- An attribute of a set is known by its name. -/
theorem AttributeSet.eq_of_sameKey {κ : Type} (s : AttributeSet κ) {a b : AttributeOf κ}
    (ha : a ∈ s.toList) (hb : b ∈ s.toList)
    (h : Record.sameKey a.name.text b.name.text = true) : a = b :=
  List.inj_on_of_nodup_map s.distinct ha hb (Record.sameKey_iff.mp h)

/-- What is found by a name is an attribute of the set with that name. -/
theorem AttributeSet.find?_eq_some {κ : Type} {s : AttributeSet κ} {name : Name} {a : AttributeOf κ}
    (h : s.find? name = some a) : a ∈ s.toList ∧ a.name.key = name.key :=
  ⟨List.mem_of_find?_eq_some h, by simpa using List.find?_some h⟩

/-- A URI holds a colon. -/
theorem SchemaUri.colon_mem (u : SchemaUri) : ':' ∈ u.text.toList := by
  have h := u.wellFormed
  simp only [isWellFormed, Bool.and_eq_true, List.contains_iff_mem] at h
  exact h.1.1

/-- A name and a URI are different keys. -/
theorem not_sameKey_name_uri (n : Name) (u : SchemaUri) :
    Record.sameKey n.text u.text = false := by
  have hcolon : Text.caseless ':' = true := by decide +kernel
  refine Bool.eq_false_iff.mpr fun h => ?_
  -- the lower-case form of the URI holds a colon, that of the name does not
  have hmem := (Text.mem_lower hcolon u.text).mpr u.colon_mem
  rw [← Record.sameKey_iff.mp h, Text.mem_lower hcolon] at hmem
  exact n.not_mem (by decide) hmem

/-- A URI and a name are different keys. -/
theorem not_sameKey_uri_name (u : SchemaUri) (n : Name) :
    Record.sameKey u.text n.text = false := by
  have h := not_sameKey_name_uri n u
  rwa [Record.sameKey, BEq.comm] at h

/-! ## Parts -/

namespace Schema

variable {s : Schema} {p p' : Part}

theorem isExtension_basePart (s : Schema) : s.basePart.uri.isExtension = false := s.isBase

/-- The parts beside it are extensions. -/
theorem isExtension_of_mem (h : p ∈ s.extensionParts) : p.uri.isExtension = true := by
  obtain ⟨use, -, rfl⟩ := List.mem_map.mp h
  exact use.extension.isExtension

/-- No two parts have one URI. -/
theorem nodup_keys_parts (s : Schema) : (s.parts.map (·.uri.key)).Nodup := by
  have h := s.distinct
  simpa [parts, basePart, extensionParts, ExtensionUse.keys, Function.comp_def] using h

/-- A part of a schema is known by its URI. -/
theorem eq_of_uri_key_eq (hp : p ∈ s.parts) (hp' : p' ∈ s.parts) (h : p.uri.key = p'.uri.key) :
    p = p' :=
  List.inj_on_of_nodup_map s.nodup_keys_parts hp hp' h

theorem mem_parts_of_mem_extensionParts (h : p ∈ s.extensionParts) : p ∈ s.parts :=
  List.mem_cons_of_mem _ h

/-! ## Finding attributes -/

/-- The only member that passes a test is found by it. -/
theorem find?_eq_some_of_unique {α : Type} {list : List α} {test : α → Bool} {a : α} (hmem : a ∈ list)
    (htest : test a = true) (hunique : ∀ b ∈ list, test b = true → b = a) :
    list.find? test = some a := by
  cases hfound : list.find? test with
  | none => exact absurd htest (List.find?_eq_none.mp hfound a hmem)
  | some b => rw [hunique b (List.mem_of_find?_eq_some hfound) (List.find?_some hfound)]

/-- The part that is found by a URI is the one that has it. -/
theorem part?_eq_some_iff {uri : SchemaUri} :
    s.part? uri = some p ↔ p ∈ s.parts ∧ p.uri.key = uri.key := by
  constructor
  · intro h
    exact ⟨List.mem_of_find?_eq_some h, by simpa [SchemaUri.same] using List.find?_some h⟩
  · rintro ⟨hp, hkey⟩
    have hsame : p.uri.same uri = true := by simpa [SchemaUri.same] using hkey
    refine find?_eq_some_of_unique hp hsame fun p' hp' hsame' => ?_
    have hkey' : p'.uri.key = uri.key := by simpa [SchemaUri.same] using hsame'
    exact eq_of_uri_key_eq hp' hp (hkey'.trans hkey.symm)

theorem part?_uri (hp : p ∈ s.parts) : s.part? p.uri = some p := part?_eq_some_iff.mpr ⟨hp, rfl⟩

/-- The attribute that is found by a name is the one that has it. -/
theorem find?_eq_some_iff {κ : Type} {set : AttributeSet κ} {name : Name} {a : AttributeOf κ} :
    set.find? name = some a ↔ a ∈ set.toList ∧ a.name.key = name.key := by
  constructor
  · exact AttributeSet.find?_eq_some
  · rintro ⟨ha, hkey⟩
    refine find?_eq_some_of_unique ha (by simpa using hkey) fun b hb hsame => ?_
    have hsame : b.name.key = name.key := by simpa using hsame
    exact set.eq_of_sameKey hb ha (Record.sameKey_iff.mpr (hsame.trans hkey.symm))

/-- An attribute is found by its name in its part. -/
theorem attribute?_ofAttr (hp : p ∈ s.parts) {a : Attribute} (ha : a ∈ p.attributes.toList) :
    s.attribute? (Qualified.ofAttr p.uri a.name) = some a := by
  have hfind : p.attributes.find? a.name = some a := find?_eq_some_iff.mpr ⟨ha, rfl⟩
  simp only [attribute?, Qualified.ofAttr, part?_uri hp, Option.bind_some, Part.attribute?, hfind,
    Option.bind_eq_bind]

/-- What a path finds among the attributes of a part: the attribute it names, or a sub-attribute
    of that. -/
theorem Part.attribute?_eq_some {path : Path} {target : Attribute}
    (h : p.attribute? path = some target) :
    ∃ a, p.attributes.find? path.attr = some a ∧
      (path.sub = none ∧ target = a ∨
        ∃ name subs sub, path.sub = some name ∧ Attribute.subs? a = some subs ∧
          subs.find? name = some sub ∧ target = SubAttribute.lift sub) := by
  simp only [Part.attribute?, Option.bind_eq_bind, Option.bind_eq_some_iff] at h
  obtain ⟨a, hfind, h⟩ := h
  refine ⟨a, hfind, ?_⟩
  cases hpath : path.sub with
  | none => exact .inl ⟨rfl, by simpa [hpath, eq_comm] using h⟩
  | some name =>
    simp only [hpath, Option.map_eq_some_iff, Option.bind_eq_some_iff] at h
    obtain ⟨subs, hsubs, sub, hsub, rfl⟩ := h
    exact .inr ⟨name, subs, sub, rfl, hsubs, hsub, rfl⟩

/-- What a path finds lies in an attribute: it is that attribute itself, or one of its
    sub-attributes. -/
theorem attribute?_eq_some {q : Qualified} {target : Attribute} (h : s.attribute? q = some target) :
    ∃ p ∈ s.parts, ∃ parent ∈ p.attributes.toList, s.attribute? q.parent = some parent ∧
      (q.isSub = false ∧ target = parent ∨ q.isSub = true ∧
        ∃ subs ∈ Attribute.subs? parent, ∃ sub ∈ subs.toList, target = SubAttribute.lift sub) := by
  obtain ⟨p, hp, hfound⟩ := Option.bind_eq_some_iff.mp h
  obtain ⟨parent, hparent, htarget⟩ := Part.attribute?_eq_some hfound
  refine ⟨p, List.mem_of_find?_eq_some hp, parent, (AttributeSet.find?_eq_some hparent).1, ?_, ?_⟩
  · simp only [attribute?, Qualified.parent, hp, Option.bind_some, Part.attribute?, Path.parent,
      hparent, Option.bind_eq_bind]
  · -- an attribute at the top, or a sub-attribute
    rcases htarget with ⟨hsub, rfl⟩ | ⟨name, subs, sub, hname, hsubs, hsub, rfl⟩
    · exact .inl ⟨by simp [Qualified.isSub, Path.isSub, hsub], rfl⟩
    · exact .inr ⟨by simp [Qualified.isSub, Path.isSub, hname], subs, hsubs, sub,
        (AttributeSet.find?_eq_some hsub).1, rfl⟩

/-! ## Data of a part -/

/-- The value of an attribute in the data of its part. -/
def Part.value? (p : Part) (r : Record) (a : Attribute) : Option Value :=
  match p.data r with
  | .ok fields => Record.get? fields a.name.text
  | .error _ => none

/-- The data of the base are the resource. -/
theorem data_basePart (s : Schema) (r : Record) : s.basePart.data r = .ok r := by
  simp [Part.data, isExtension_basePart]

/-- The data of an extension is the record below its URI, and nothing where there is none. -/
theorem data_eq_ok_iff (hp : p ∈ s.extensionParts) {r fields : Record} :
    p.data r = .ok fields ↔
      Record.get? r p.uri.text = some (.complex fields) ∨
        Record.getD r p.uri.text = .null ∧ fields = [] := by
  simp only [Part.data, isExtension_of_mem hp, if_true, Record.getD]
  cases hget : Record.get? r p.uri.text with
  | none => simp [eq_comm]
  | some value => cases value <;> simp [eq_comm]

/-- The value of an attribute is looked up in the data of its part. -/
theorem Part.value?_of_data {r fields : Record} (h : p.data r = .ok fields) (a : Attribute) :
    p.value? r a = Record.get? fields a.name.text := by
  simp [Part.value?, h]

/-- So it is there if the part has data, and these have the value. -/
theorem Part.value?_eq_some {r : Record} {a : Attribute} {value : Value} :
    p.value? r a = some value ↔
      ∃ fields, p.data r = .ok fields ∧ Record.get? fields a.name.text = some value := by
  unfold value?
  cases p.data r <;> simp

/-- What a key of a part addresses lies in the data of the part. -/
theorem getAt?_uri (hp : p ∈ s.parts) {r : Record} {path : Path} {lacking value : Value}
    (h : Record.getAt? r (.ofQualified ⟨p.uri, path⟩) lacking = some value) :
    ∃ fields, p.data r = .ok fields ∧ Record.getPath? fields path lacking = some value := by
  -- the base is the resource itself, an extension lies below its URI
  rcases List.mem_cons.mp hp with rfl | hext
  · refine ⟨r, data_basePart s r, ?_⟩
    simpa [Key.ofQualified, isExtension_basePart, Record.getAt?] using h
  · simp only [Key.ofQualified, isExtension_of_mem hext, if_true, Record.getAt?,
      Option.bind_eq_bind, Option.bind_eq_some_iff] at h
    obtain ⟨entry, hget, fields, hentry, hpath⟩ := h
    obtain rfl := Value.eq_complex_of_complex? hentry
    exact ⟨fields, (data_eq_ok_iff hext).mpr (.inl hget), hpath⟩

/-- What is said of the attributes in the data of a part can be said of their values, if the part has
    data. -/
theorem Part.exists_data_iff (p : Part) (r : Record) (there : Record → Prop)
    (good : Attribute → Value → Prop) :
    (∃ fields, p.data r = .ok fields ∧ there fields ∧
        ∀ a ∈ p.attributes.toList, good a (Record.getD fields a.name.text)) ↔
      (∃ fields, p.data r = .ok fields ∧ there fields) ∧
        ∀ a ∈ p.attributes.toList, good a ((p.value? r a).getD .null) := by
  constructor
  · rintro ⟨fields, hdata, hthere, hall⟩
    refine ⟨⟨fields, hdata, hthere⟩, fun a ha => ?_⟩
    rw [Part.value?_of_data hdata]
    exact hall a ha
  · rintro ⟨⟨fields, hdata, hthere⟩, hall⟩
    refine ⟨fields, hdata, hthere, fun a ha => ?_⟩
    have hgood := hall a ha
    rwa [Part.value?_of_data hdata] at hgood

/-- An extension has data if its entry is a record or nothing. -/
theorem exists_data_extension_iff (hp : p ∈ s.extensionParts) {r : Record} :
    (∃ fields, p.data r = .ok fields) ↔ Record.getD r p.uri.text = .null ∨
      ∃ fields, Record.getD r p.uri.text = .complex fields := by
  simp only [data_eq_ok_iff hp, Record.getD_eq_complex_iff]
  constructor
  · rintro ⟨fields, hget | ⟨hnull, -⟩⟩
    · exact .inr ⟨fields, hget⟩
    · exact .inl hnull
  · rintro (hnull | ⟨fields, hget⟩)
    · exact ⟨[], .inr ⟨hnull, rfl⟩⟩
    · exact ⟨fields, .inl hget⟩

/-- All parts have data just if the extensions have. -/
theorem forall_data_iff (s : Schema) (r : Record) (good : Attribute → Value → Prop) :
    (∀ p ∈ s.parts, ∃ fields, p.data r = .ok fields ∧
        ∀ a ∈ p.attributes.toList, good a (Record.getD fields a.name.text)) ↔
      (∀ p ∈ s.extensionParts, Record.getD r p.uri.text = .null ∨
        ∃ fields, Record.getD r p.uri.text = .complex fields) ∧
      ∀ p ∈ s.parts, ∀ a ∈ p.attributes.toList, good a ((p.value? r a).getD .null) := by
  have hvalue : ∀ p : Part, (∃ fields, p.data r = .ok fields ∧
      ∀ a ∈ p.attributes.toList, good a (Record.getD fields a.name.text)) ↔
      (∃ fields, p.data r = .ok fields) ∧
        ∀ a ∈ p.attributes.toList, good a ((p.value? r a).getD .null) := by
    intro p
    have h := p.exists_data_iff r (fun _ => True) good
    simpa only [true_and, and_true] using h
  constructor
  · intro h
    have hparts := fun p hp => (hvalue p).mp (h p hp)
    exact ⟨fun p hp => (exists_data_extension_iff hp).mp
        (hparts p (mem_parts_of_mem_extensionParts hp)).1, fun p hp => (hparts p hp).2⟩
  · rintro ⟨hentries, hall⟩ p hp
    refine (hvalue p).mpr ⟨?_, hall p hp⟩
    rcases List.mem_cons.mp hp with rfl | hext
    · -- the base has no entry of its own
      exact ⟨r, data_basePart s r⟩
    · exact (exists_data_extension_iff hext).mpr (hentries p hext)

/-! ## Resources put together -/

/-- What a resource is put together from: attributes of the base under their names, and one entry of
    each extension at most, under its URI. -/
structure Assembles (s : Schema) (base : Record) (f : Part → Record) : Prop where
  names : ∀ entry ∈ base, ∃ name : Name, entry.1 = name.text
  uris : ∀ p ∈ s.extensionParts, f p = [] ∨ ∃ value, f p = [(p.uri.text, value)]

namespace Assembles

variable {base : Record} {f : Part → Record}

/-- Every entry of an extension has its URI. -/
theorem key_eq (h : s.Assembles base f) (hp : p ∈ s.extensionParts) {entry : String × Value}
    (hentry : entry ∈ f p) : entry.1 = p.uri.text := by
  rcases h.uris p hp with hnil | ⟨value, hsingle⟩
  · rw [hnil] at hentry
    nomatch hentry
  · rw [hsingle] at hentry
    rw [List.mem_singleton.mp hentry]

/-- What lies under the name of an attribute comes from the base. -/
theorem values_name (h : s.Assembles base f) (name : Name) :
    Record.values (base ++ s.extensionParts.flatMap f) name.text = base.values name.text := by
  rw [Record.values_append]
  refine List.append_right_eq_self.mpr (List.eq_nil_iff_forall_not_mem.mpr fun value hvalue => ?_)
  obtain ⟨entry, hmem, hsame, -⟩ := Record.mem_values.mp hvalue
  obtain ⟨p, hp, hentry⟩ := List.mem_flatMap.mp hmem
  rw [h.key_eq hp hentry, not_sameKey_uri_name] at hsame
  nomatch hsame

/-- What lies under the URI of an extension comes from that extension. -/
theorem mem_values_uri (h : s.Assembles base f) (hp : p ∈ s.extensionParts) {value : Value} :
    value ∈ Record.values (base ++ s.extensionParts.flatMap f) p.uri.text ↔
      (p.uri.text, value) ∈ f p := by
  rw [Record.values_append, List.mem_append, Record.mem_values, Record.mem_values]
  constructor
  · rintro (⟨entry, hmem, hsame, -⟩ | ⟨entry, hmem, hsame, rfl⟩)
    · -- attributes of the base have names for keys
      obtain ⟨name, hname⟩ := h.names entry hmem
      rw [hname, not_sameKey_name_uri] at hsame
      nomatch hsame
    · -- and other extensions have other URIs
      obtain ⟨p', hp', hentry⟩ := List.mem_flatMap.mp hmem
      have hkey := h.key_eq hp' hentry
      rw [hkey] at hsame
      obtain rfl := eq_of_uri_key_eq (mem_parts_of_mem_extensionParts hp')
        (mem_parts_of_mem_extensionParts hp) (Record.sameKey_iff.mp hsame)
      rwa [← hkey]
  · exact fun hentry => .inr ⟨_, List.mem_flatMap.mpr ⟨p, hp, hentry⟩, Record.sameKey_iff.mpr rfl,
      rfl⟩

/-- The URIs of the extensions stand among the keys in their order. -/
theorem keys_sublist {parts : List Part}
    (h : ∀ p ∈ parts, f p = [] ∨ ∃ value, f p = [(p.uri.text, value)]) :
    ((parts.flatMap f).map fun e => Text.lower e.1).Sublist (parts.map (·.uri.key)) := by
  induction parts with
  | nil => exact .slnil
  | cons p parts ih =>
    obtain ⟨hp, hparts⟩ := List.forall_mem_cons.mp h
    rw [List.flatMap_cons, List.map_append, List.map_cons]
    -- an extension has one entry or none
    rcases hp with hp | ⟨value, hp⟩ <;> rw [hp]
    · exact (ih hparts).cons _
    · exact (ih hparts).cons_cons _

/-- No two keys differ in case only, if those of the base do not. -/
theorem distinct (h : s.Assembles base f) (hbase : base.Distinct) :
    Record.Distinct (base ++ s.extensionParts.flatMap f) := by
  have huris : (s.extensionParts.map (·.uri.key)).Nodup := (List.nodup_cons.mp s.nodup_keys_parts).2
  have hkeys := keys_sublist h.uris
  unfold Record.Distinct
  rw [List.map_append, List.nodup_append]
  refine ⟨hbase, huris.sublist hkeys, ?_⟩
  -- a name is no URI
  intro key hkey key' hkey' heq
  obtain ⟨entry, hentry, rfl⟩ := List.mem_map.mp hkey
  obtain ⟨name, hname⟩ := h.names entry hentry
  obtain ⟨p, -, huri⟩ := List.mem_map.mp (hkeys.subset hkey')
  have hsame : Record.sameKey name.text p.uri.text = true :=
    Record.sameKey_iff.mpr (by rw [← hname, heq, ← huri, SchemaUri.key])
  simp [not_sameKey_name_uri] at hsame

/-- An attribute is found where the base has it. -/
theorem get?_name (h : s.Assembles base f) (hbase : base.Distinct) (name : Name) :
    Record.get? (base ++ s.extensionParts.flatMap f) name.text = base.get? name.text := by
  refine Option.ext fun value => ?_
  rw [(h.distinct hbase).get?_eq_some_iff, hbase.get?_eq_some_iff, h.values_name]

/-- An extension is found by its URI. -/
theorem get?_uri_eq_some (h : s.Assembles base f) (hbase : base.Distinct)
    (hp : p ∈ s.extensionParts) {value : Value} :
    Record.get? (base ++ s.extensionParts.flatMap f) p.uri.text = some value ↔
      (p.uri.text, value) ∈ f p := by
  rw [(h.distinct hbase).get?_eq_some_iff, h.mem_values_uri hp]

end Assembles

end Schema

end Scim
