import Scim.Proofs.Attribute.Validation
import Scim.Proofs.Schema.Parts
import Scim.Schema.Projection

/-!
  # What a projection discloses

  A value is disclosed that is never to be returned: the value of such an attribute, or the value of
  such a sub-attribute in an element of a value that is returned itself.  Of sound data a projection
  discloses nothing but what an attribute that is always returned lets through, for such an
  attribute is returned as it stands.

    * `Discloses` says so of any record, whoever made it: it does not look at how a projection works,
      and it looks at every entry with a key, at every depth of nested lists;
    * a projection takes each value from one attribute of one part (`Schema.discloses_project`), since
      keys do not get in each other's way;
    * what is left of an element has no value of a sub-attribute that is never returned
      (`values_projectElement`), and sound data has no other elements
      (`mem_records_of_projectElements`).
-/

namespace Scim

/-! ## Disclosure -/

/-- A value of the attribute holds what is never to be returned. -/
def Attribute.Discloses (a : Attribute) (value : Value) : Prop :=
  a.returned = .never ∨
    ∃ subs ∈ Attribute.subs? a, ∃ sub ∈ subs.toList, sub.returned = .never ∧
      ∃ element ∈ value.records, element.values sub.name.text ≠ []

namespace Schema

/-- Data of a part holds what is never to be returned. -/
def Part.Discloses (p : Part) (fields : Record) : Prop :=
  ∃ a ∈ p.attributes.toList, ∃ value ∈ fields.values a.name.text, Attribute.Discloses a value

/-- A resource holds what is never to be returned, at the top or below the URI of an extension. -/
def Discloses (s : Schema) (r : Record) : Prop :=
  s.basePart.Discloses r ∨
    ∃ p ∈ s.extensionParts, ∃ value ∈ r.values p.uri.text, ∃ fields ∈ value.complex?,
      p.Discloses fields

instance (a : Attribute) (value : Value) : Decidable (Attribute.Discloses a value) := by
  unfold Attribute.Discloses
  infer_instance

instance (p : Part) (fields : Record) : Decidable (p.Discloses fields) := by
  unfold Part.Discloses
  infer_instance

instance (s : Schema) (r : Record) : Decidable (s.Discloses r) := by
  unfold Discloses
  infer_instance

/-- The values of all attributes pass the checks of their attributes. -/
def Sound (s : Schema) (r : Record) : Prop :=
  ∀ p ∈ s.parts, ∀ a ∈ p.attributes.toList, ∀ value ∈ p.value? r a,
    (Attribute.validate a value).hasErrors = false

/-- An attribute that is always returned has a sub-attribute that is never returned, and a value
    for it. -/
def LetsThrough (s : Schema) (r : Record) : Prop :=
  ∃ p ∈ s.parts, ∃ a ∈ p.attributes.toList, a.returned = .always ∧
    ∃ value ∈ p.value? r a, Attribute.Discloses a value

/-! ## Elements -/

variable {config : Presence}

/-- What is left of an element has nothing under the name of a sub-attribute that is never
    returned. -/
theorem values_projectElement {q : Qualified} {subs : AttributeSet SimpleKind} {fields : Record}
    {sub : SubAttribute} (hsub : sub ∈ subs.toList) (hnever : sub.returned = .never) :
    (projectElement config q subs.toList fields).values sub.name.text = [] := by
  refine List.eq_nil_iff_forall_not_mem.mpr fun value hvalue => ?_
  obtain ⟨entry, hmem, hsame, -⟩ := Record.mem_values.mp hvalue
  obtain ⟨sub', hsub', hkept⟩ := List.mem_filterMap.mp hmem
  split at hkept
  · rename_i hreturns
    obtain ⟨v, -, rfl⟩ := Option.map_eq_some_iff.mp hkept
    -- the entry is of the sub-attribute itself, and that one is not returned
    obtain rfl := subs.eq_of_sameKey hsub' hsub hsame
    simp [returns, hnever] at hreturns
  · simp at hkept

/-- What is left of a value whose elements are records consists of what is left of records. -/
theorem mem_records_of_projectElements {q : Qualified} {subs : List SubAttribute} {a : Attribute}
    {value kept : Value} {element : Record}
    (hform : a.HasForm (fun element => ∃ fields, element = .complex fields) value)
    (hkept : projectElements config q subs value = some kept) (hmem : element ∈ kept.records) :
    ∃ fields, element = projectElement config q subs fields := by
  rcases hform with rfl | hform
  · obtain rfl : Value.null = kept := by simpa [projectElements] using hkept
    simp [Value.records] at hmem
  · split at hform
    · obtain ⟨items, rfl, hitems⟩ := hform
      simp only [projectElements, Option.ite_none_left_eq_some, Option.some.injEq] at hkept
      obtain ⟨-, rfl⟩ := hkept
      rw [Value.records, Value.mem_recordsOf] at hmem
      obtain ⟨kept, hkept, helement⟩ := hmem
      obtain ⟨item, hitem, rfl⟩ := List.mem_map.mp (List.mem_of_mem_filter hkept)
      -- null stays as it is; of a record only the projection is left
      rcases hitems item hitem with rfl | ⟨fields, rfl⟩
      · simp [Value.records] at helement
      · exact ⟨fields, by simpa [Value.records] using helement⟩
    · obtain ⟨fields, rfl⟩ := hform
      simp only [projectElements, Option.ite_none_left_eq_some, Option.some.injEq] at hkept
      obtain ⟨-, rfl⟩ := hkept
      exact ⟨fields, by simpa [Value.records] using hmem⟩

/-! ## Attributes -/

/-- Nothing is kept of an attribute that is never returned. -/
theorem not_never_of_projectAttribute {a : Attribute} {q : Qualified} {value kept : Value}
    (hkept : projectAttribute config a q value = some kept) : a.returned ≠ .never := by
  intro hnever
  simp [projectAttribute, returns, hnever] at hkept

/-- What is kept of a value discloses something just if the attribute is always returned, and then
    what the value itself discloses. -/
theorem discloses_projectAttribute_iff {a : Attribute} {q : Qualified} {value : Value}
    (hvalid : (Attribute.validate a value).hasErrors = false) :
    (∃ kept, projectAttribute config a q value = some kept ∧ Attribute.Discloses a kept) ↔
      a.returned = .always ∧ Attribute.Discloses a value := by
  constructor
  · rintro ⟨kept, hkept, hdiscloses⟩
    rcases hdiscloses with hnever | ⟨subs, hsubs, sub, hsub, hnever, element, helement, hvalues⟩
    · exact absurd hnever (not_never_of_projectAttribute hkept)
    · unfold projectAttribute at hkept
      split at hkept
      · simp at hkept
      · split at hkept
        · rename_i halways
          obtain rfl : value = kept := by simpa using hkept
          exact ⟨by simpa using halways,
            Or.inr ⟨subs, hsubs, sub, hsub, hnever, element, helement, hvalues⟩⟩
        · -- elements are looked through, so the value is not there
          rw [Option.mem_def] at hsubs
          simp only [hsubs] at hkept
          obtain ⟨fields, rfl⟩ := mem_records_of_projectElements
            (Attribute.hasForm_of_validate hsubs hvalid) hkept helement
          exact absurd (values_projectElement hsub hnever) hvalues
  · rintro ⟨halways, hdiscloses⟩
    refine ⟨value, ?_, hdiscloses⟩
    simp [projectAttribute, returns, halways]

/-! ## Parts -/

/-- The entries of a projected part: what was kept of the values of its attributes. -/
theorem Part.mem_project_iff {p : Part} {fields : Record} {entry : String × Value} :
    entry ∈ p.project config fields ↔
      ∃ a ∈ p.attributes.toList, ∃ value kept, Record.get? fields a.name.text = some value ∧
        projectAttribute config a (Qualified.ofAttr p.uri a.name) value = some kept ∧
        entry = (a.name.text, kept) := by
  rw [Part.project, List.mem_filterMap]
  refine exists_congr fun a => and_congr_right fun _ => ?_
  simp only [Option.bind_eq_bind, Option.bind_eq_some_iff, Option.pure_def, Option.some.injEq,
    exists_and_left, @eq_comm _ _ entry]

/-- A projected part has a value under the name of an attribute just where one was kept of it. -/
theorem Part.mem_values_project {p : Part} {fields : Record} {a : Attribute} {kept : Value}
    (ha : a ∈ p.attributes.toList) :
    kept ∈ (p.project config fields).values a.name.text ↔
      ∃ value, Record.get? fields a.name.text = some value ∧
        projectAttribute config a (Qualified.ofAttr p.uri a.name) value = some kept := by
  rw [Record.mem_values]
  constructor
  · rintro ⟨entry, hmem, hsame, rfl⟩
    obtain ⟨a', ha', value, kept, hvalue, hkept, rfl⟩ := Part.mem_project_iff.mp hmem
    obtain rfl := p.attributes.eq_of_sameKey ha' ha hsame
    exact ⟨value, hvalue, hkept⟩
  · rintro ⟨value, hvalue, hkept⟩
    have hentry := Part.mem_project_iff.mpr ⟨a, ha, value, kept, hvalue, hkept, rfl⟩
    exact ⟨_, hentry, Record.sameKey_iff.mpr rfl, rfl⟩

/-- All keys of a projected part are names of attributes. -/
theorem Part.key_project {p : Part} {fields : Record} {entry : String × Value}
    (h : entry ∈ p.project config fields) : ∃ name : Name, entry.1 = name.text := by
  obtain ⟨a, -, value, kept, -, -, rfl⟩ := Part.mem_project_iff.mp h
  exact ⟨a.name, rfl⟩

/-- What is left of an extension: nothing, or an entry with what is kept of its data. -/
theorem Part.projectExtension_cases (config : Presence) (p : Part) (r : Record) :
    (p.projectExtension config r = [] ∧ ∀ fields, Record.get? r p.uri.text = some (.complex fields) →
        p.project config fields = []) ∨
      ∃ fields, Record.get? r p.uri.text = some (.complex fields) ∧ p.project config fields ≠ [] ∧
        p.projectExtension config r = [(p.uri.text, .complex (p.project config fields))] := by
  unfold projectExtension
  split
  · rename_i fields hget
    dsimp only
    split
    · rename_i hempty
      refine .inl ⟨rfl, fun fields' hget' => ?_⟩
      obtain rfl := Value.complex.inj (Option.some.inj (hget.symm.trans hget'))
      exact List.isEmpty_iff.mp hempty
    · rename_i hkept
      exact .inr ⟨fields, hget, by rwa [List.isEmpty_iff] at hkept, rfl⟩
  · rename_i hother
    exact .inl ⟨rfl, fun fields hget => absurd hget (hother fields)⟩

/-- The entry of a projected extension, if there is one, holds what is kept of its data. -/
theorem Part.mem_projectExtension_iff {p : Part} {r : Record} {entry : String × Value} :
    entry ∈ p.projectExtension config r ↔
      ∃ fields, Record.get? r p.uri.text = some (.complex fields) ∧
        p.project config fields ≠ [] ∧ entry = (p.uri.text, .complex (p.project config fields)) := by
  -- both sides say that something is kept
  rcases p.projectExtension_cases config r with ⟨hnil, hnone⟩ | ⟨fields, hget, hkept, hsingle⟩
  · rw [hnil]
    refine iff_of_false List.not_mem_nil ?_
    rintro ⟨fields, hget, hkept, -⟩
    exact hkept (hnone fields hget)
  · rw [hsingle, List.mem_singleton]
    constructor
    · exact fun hentry => ⟨fields, hget, hkept, hentry⟩
    · rintro ⟨fields', hget', -, rfl⟩
      obtain rfl := Value.complex.inj (Option.some.inj (hget.symm.trans hget'))
      rfl

/-! ## Resources -/

variable {s : Schema} {r : Record}

/-- A projection is put together from attributes and extensions. -/
theorem assembles_project (s : Schema) (r : Record) (config : Presence) :
    s.Assembles (s.basePart.project config r) fun p => p.projectExtension config r where
  names _ hentry := Part.key_project hentry
  uris p _ := (p.projectExtension_cases config r).imp And.left
    fun ⟨_, _, _, hsingle⟩ => ⟨_, hsingle⟩

/-- What a projection has under the name of an attribute comes from the base. -/
theorem values_project_name (name : Name) :
    (s.project r config).values name.text = (s.basePart.project config r).values name.text :=
  (s.assembles_project r config).values_name name

/-- What a projection has under the URI of an extension comes from that extension. -/
theorem mem_values_project_uri {p : Part} (hp : p ∈ s.extensionParts) {value : Value} :
    value ∈ (s.project r config).values p.uri.text ↔
      ∃ fields, Record.get? r p.uri.text = some (.complex fields) ∧
        p.project config fields ≠ [] ∧ value = .complex (p.project config fields) := by
  refine ((s.assembles_project r config).mem_values_uri hp).trans ?_
  rw [Part.mem_projectExtension_iff]
  simp only [Prod.mk.injEq, true_and]

@[simp]
theorem Part.project_nil (p : Part) : p.project config [] = [] := by
  simp [Part.project, Record.get?]

/-- A projection discloses what the projection of one of the parts does. -/
theorem discloses_project :
    s.Discloses (s.project r config) ↔
      ∃ p ∈ s.parts, ∃ fields, p.data r = .ok fields ∧ p.Discloses (p.project config fields) := by
  constructor
  · rintro (⟨a, ha, value, hvalue, hdiscloses⟩ | ⟨p, hp, value, hvalue, kept, hkept, hdiscloses⟩)
    · rw [values_project_name] at hvalue
      exact ⟨s.basePart, List.mem_cons_self, r, data_basePart s r, a, ha, value, hvalue, hdiscloses⟩
    · obtain ⟨fields, hget, -, rfl⟩ := (mem_values_project_uri hp).mp hvalue
      obtain rfl : p.project config fields = kept := by simpa [Value.complex?] using hkept
      exact ⟨p, mem_parts_of_mem_extensionParts hp, fields,
        (data_eq_ok_iff hp).mpr (Or.inl hget), hdiscloses⟩
  · rintro ⟨p, hp, fields, hdata, a, ha, value, hvalue, hdiscloses⟩
    -- the base is found at the top, an extension below its URI
    rcases List.mem_cons.mp hp with rfl | hp
    · obtain rfl : r = fields := by simpa [data_basePart] using hdata
      exact Or.inl ⟨a, ha, value, by rwa [values_project_name], hdiscloses⟩
    · rcases (data_eq_ok_iff hp).mp hdata with hget | ⟨-, rfl⟩
      · -- the extension is kept, for it has an entry
        have hkept : p.project config fields ≠ [] := by
          intro hnil
          simp [hnil, Record.values] at hvalue
        exact Or.inr ⟨p, hp, _, (mem_values_project_uri hp).mpr ⟨fields, hget, hkept, rfl⟩, _, rfl,
          a, ha, value, hvalue, hdiscloses⟩
      · simp [Record.values] at hvalue

/-- A projection of sound data discloses a value that is never to be returned just if an attribute
    lets it through that is always returned.  What was asked for makes no difference. -/
theorem project_discloses_iff (hsound : s.Sound r) :
    s.Discloses (s.project r config) ↔ s.LetsThrough r := by
  -- part by part, and attribute by attribute
  rw [discloses_project]
  constructor
  · rintro ⟨p, hp, fields, hdata, a, ha, kept, hmem, hdiscloses⟩
    obtain ⟨value, hget, hkept⟩ := (Part.mem_values_project ha).mp hmem
    have hvalue : p.value? r a = some value := by rw [Part.value?_of_data hdata, hget]
    have hvalid := hsound p hp a ha value hvalue
    have ⟨halways, hlets⟩ := (discloses_projectAttribute_iff hvalid).mp ⟨kept, hkept, hdiscloses⟩
    exact ⟨p, hp, a, ha, halways, value, hvalue, hlets⟩
  · rintro ⟨p, hp, a, ha, halways, value, hvalue, hlets⟩
    have hvalid := hsound p hp a ha value hvalue
    obtain ⟨fields, hdata, hget⟩ := Part.value?_eq_some.mp hvalue
    obtain ⟨kept, hkept, hdiscloses⟩ := (discloses_projectAttribute_iff hvalid).mpr ⟨halways, hlets⟩
    exact ⟨p, hp, fields, hdata, a, ha, kept, (Part.mem_values_project ha).mpr ⟨value, hget, hkept⟩,
      hdiscloses⟩

/-! ## A vault -/

/-- A complex attribute with a secret: its title may be returned, its pin may not. -/
def vault (returned : Returned) : Attribute where
  name := ⟨"vault", by decide +kernel⟩
  returned := returned
  kind := .complex
    { toList :=
        [ { name := ⟨"title", by decide +kernel⟩, kind := .string },
          { name := ⟨"pin", by decide +kernel⟩, kind := .string, returned := .never } ]
      distinct := by decide +kernel }

/-- A schema with a vault. -/
def vaultSchema (returned : Returned) : Schema where
  uri := ⟨"urn:Vault", false, by decide +kernel⟩
  name := "Vault"
  endpoint := "/Vaults"
  description := "What is kept"
  attributes := ⟨CommonAttribute.all ++ [vault returned], by cases returned <;> decide +kernel⟩
  extensions := []
  isBase := rfl
  distinct := by decide +kernel
  common := List.prefix_append _ _

/-- A vault with a pin. -/
def vaultData : Record :=
  [("vault", .complex [("title", .string "door"), ("pin", .string "1234")])]

/-- The data of the vault are right, however the vault is returned. -/
theorem sound_vaultData (returned : Returned) : (vaultSchema returned).Sound vaultData := by
  unfold Sound
  cases returned <;> decide +kernel

/-- A vault that is returned by default is returned without its pin. -/
theorem project_vault_byDefault :
    (vaultSchema .byDefault).Sound vaultData ∧
      ¬(vaultSchema .byDefault).Discloses ((vaultSchema .byDefault).project vaultData .response) := by
  have hsound := sound_vaultData .byDefault
  have hlets : ¬(vaultSchema .byDefault).LetsThrough vaultData := by
    unfold LetsThrough
    decide +kernel
  exact ⟨hsound, mt (project_discloses_iff hsound).mp hlets⟩

/-- A vault that is always returned is returned with its pin. -/
theorem project_vault_always :
    (vaultSchema .always).Sound vaultData ∧
      (vaultSchema .always).Discloses ((vaultSchema .always).project vaultData .response) := by
  exact ⟨sound_vaultData .always, by decide +kernel⟩

end Schema

end Scim
