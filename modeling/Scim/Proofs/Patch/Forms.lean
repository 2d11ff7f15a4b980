import Scim.Proofs.Patch.Operation

/-!
  # Two ways of writing one change

  An attribute at the top is added or replaced by a path that leads to it, with the value given, or
  without a path by a record that holds the value under the attribute's name, below the URI of the
  extension that it belongs to.  Both ways are checked on their own, and they differ in one point: a
  value that is to come from the service provider is rejected without a path only
  (`Operation.validate_forms_iff`).

    * The record holds the value of that one attribute, and all other attributes have none
      (`data_held`, `data_held_of_ne`), so that just this value decides whether it can be written.
    * The path leads to that attribute (`attribute?_ofAttr`), and to the value as it stands.
-/

namespace Scim

namespace Schema

variable {s : Schema} {p p' : Part} {a : Attribute} {value : Value}

/-- The record of a resource with nothing but a value of one attribute. -/
def Part.held (p : Part) (a : Attribute) (value : Value) : Record :=
  let fields := Record.single a.name.text value
  if p.uri.isExtension then Record.single p.uri.text (.complex fields) else fields

/-- The path to an attribute of a part. -/
def Part.pathTo (p : Part) (a : Attribute) : PatchPath where
  attr := .qualified (Qualified.ofAttr p.uri a.name)
  selection := none
  sub := none
  isTop := rfl
  onAttr := by simp

/-! ## The record -/

/-- A record with one entry holds its value. -/
theorem getD_single_self (key : String) (value : Value) :
    Record.getD (Record.single key value) key = value := by
  simp [Record.getD, Record.single, Record.get?, Record.sameKey]

/-- And nothing under any other key. -/
theorem getD_single_of_ne {key other : String} (h : Record.sameKey key other = false)
    (value : Value) : Record.getD (Record.single key value) other = .null := by
  simp [Record.getD, Record.single, Record.get?, h]

/-- The part of the attribute has the value, be it the resource itself or an extension. -/
theorem data_held (p : Part) (a : Attribute) (value : Value) :
    p.data (p.held a value) = .ok (Record.single a.name.text value) := by
  unfold Part.data Part.held
  split
  · simp [Record.single, Record.get?, Record.sameKey]
  · rfl

/-- An extension has no data where there is nothing but an entry with another key. -/
theorem data_single_of_ne {key : String} (hp : p ∈ s.extensionParts)
    (hne : Record.sameKey key p.uri.text = false) (value : Value) :
    p.data (Record.single key value) = .ok [] :=
  (data_eq_ok_iff hp).mpr (.inr ⟨getD_single_of_ne hne value, rfl⟩)

/-- No other part has a value for any of its attributes. -/
theorem data_held_of_ne (hp : p ∈ s.parts) (hp' : p' ∈ s.parts) (hne : p' ≠ p) :
    ∃ fields, p'.data (p.held a value) = .ok fields ∧
      ∀ name : Name, Record.getD fields name.text = .null := by
  -- the record holds the value at the top, or below the URI of its extension
  rcases List.mem_cons.mp hp with rfl | hext
  · have hheld : s.basePart.held a value = Record.single a.name.text value := by
      simp [Part.held, isExtension_basePart]
    rcases List.mem_cons.mp hp' with rfl | hext'
    · exact absurd rfl hne
    · rw [hheld]
      exact ⟨[], data_single_of_ne hext' (not_sameKey_name_uri a.name p'.uri) value, fun _ => rfl⟩
  · have hheld : p.held a value =
        Record.single p.uri.text (.complex (Record.single a.name.text value)) := by
      simp [Part.held, isExtension_of_mem hext]
    rw [hheld]
    rcases List.mem_cons.mp hp' with rfl | hext'
    · exact ⟨_, data_basePart s _, fun name =>
        getD_single_of_ne (not_sameKey_uri_name p.uri name) _⟩
    · -- both are extensions, and have different URIs
      have hkey : Record.sameKey p.uri.text p'.uri.text = false := by
        refine Bool.eq_false_iff.mpr fun hsame => hne ?_
        exact (eq_of_uri_key_eq hp hp' (Record.sameKey_iff.mp hsame)).symm
      exact ⟨[], data_single_of_ne hext' hkey _, fun _ => rfl⟩

/-- Whether the record can be written is decided by its one value. -/
theorem writable_held_iff (hp : p ∈ s.parts) (ha : a ∈ p.attributes.toList) :
    s.Writable (p.held a value) ↔ (Attribute.validate a value).hasErrors = false ∧
      Attribute.FreeOf a (fun c => c.ReadOnly ∨ c.ProviderIssued) value := by
  rw [Operation.writable_iff]
  constructor
  · intro h
    obtain ⟨fields, hdata, hall⟩ := h p hp
    obtain rfl : Record.single a.name.text value = fields := by simpa [data_held] using hdata
    have hvalue := hall a ha
    rwa [getD_single_self] at hvalue
  · rintro hvalue p' hp'
    -- what has no value is right, and free of everything
    have hnull : ∀ b : Attribute, (Attribute.validate b .null).hasErrors = false ∧
        Attribute.FreeOf b (fun c => c.ReadOnly ∨ c.ProviderIssued) .null :=
      fun b => ⟨rfl, fun _ => rfl, fun _ _ _ _ fields hfields => by simp [Value.records] at hfields⟩
    -- the part of the attribute, or another one, which has no data
    by_cases hsame : p' = p
    · subst hsame
      refine ⟨_, data_held p' a value, fun b hb => ?_⟩
      -- the attribute itself, or another one, which has no value
      by_cases hkey : Record.sameKey a.name.text b.name.text = true
      · obtain rfl := p'.attributes.eq_of_sameKey ha hb hkey
        rwa [getD_single_self]
      · rw [getD_single_of_ne (Bool.not_eq_true _ ▸ hkey)]
        exact hnull b
    · obtain ⟨fields, hdata, hnone⟩ := data_held_of_ne hp hp' hsame
      refine ⟨fields, hdata, fun b _ => ?_⟩
      rw [hnone b.name]
      exact hnull b

end Schema

/-! ## Both ways -/

namespace Operation

open Schema

variable {s : Schema} {p : Part} {a : Attribute} {op : PatchOp} {value : Value}

/-- The change of one attribute, by a path that leads to it. -/
def byPath (op : PatchOp) (p : Part) (a : Attribute) (value : Value) : Operation :=
  ⟨op, some (p.pathTo a), some value⟩

/-- The change of one attribute, by a record with its value. -/
def byRecord (op : PatchOp) (p : Part) (a : Attribute) (value : Value) : Operation :=
  ⟨op, none, some (.complex (p.held a value))⟩

/-- By a record the change is accepted if the value is right, and free of what is read-only or
    issued by the provider. -/
theorem validate_byRecord_iff (hs : s.Earnest) (hp : p ∈ s.parts) (ha : a ∈ p.attributes.toList)
    (hop : op ≠ .remove) :
    ((byRecord op p a value).validate s).hasErrors = false ↔
      (Attribute.validate a value).hasErrors = false ∧
        Attribute.FreeOf a (fun c => c.ReadOnly ∨ c.ProviderIssued) value := by
  rw [validate_pathless_iff hs rfl hop, ← writable_held_iff hp ha]
  simp [byRecord]

/-- By a path it is accepted if the value is right, and free of what is read-only. -/
theorem validate_byPath_iff (hs : s.Earnest) (hp : p ∈ s.parts) (ha : a ∈ p.attributes.toList)
    (hop : op ≠ .remove) (hpresent : value.isPresent = true) :
    ((byPath op p a value).validate s).hasErrors = false ↔
      (Attribute.validate a value).hasErrors = false ∧
        Attribute.FreeOf a Characteristics.ReadOnly value := by
  have hfound := attribute?_ofAttr hp ha
  have hresolve : s.resolve? (p.pathTo a).target = some (Qualified.ofAttr p.uri a.name) := by
    simp [PatchPath.target, Part.pathTo, resolve?, hfound]
  have hgiven : (byPath op p a value).givenValue? = some value :=
    givenValue?_eq_some.mpr ⟨rfl, fun hnull => by simp [hnull, Value.isPresent] at hpresent⟩
  refine (validateTarget_iff hs).trans ?_
  constructor
  · -- the path leads to no other attribute
    rintro ⟨q, target, parent, hq, htarget, -, -, -, hfits⟩
    obtain rfl : Qualified.ofAttr p.uri a.name = q := by simpa [hresolve] using hq
    obtain rfl : a = target := by simpa [hfound] using htarget
    obtain ⟨given, hgiven', hvalid, hfree⟩ := hfits.given hop
    obtain rfl : value = given := by simpa [hgiven] using hgiven'
    exact ⟨hvalid, hfree⟩
  · rintro ⟨hvalid, hfree⟩
    -- an attribute that is read-only is not free of itself
    have hwritable : ¬a.ReadOnly := fun hreadOnly => by simp [hfree.own hreadOnly] at hpresent
    exact ⟨_, a, a, hresolve, hfound, hfound, hwritable, hwritable, fun hremove => absurd hremove hop,
      fun _ => ⟨value, hgiven, hvalid, hfree⟩⟩

/-- A change of one attribute is accepted by a record just if it is accepted by a path and holds no
    value that is to come from the service provider. -/
theorem validate_forms_iff (hs : s.Earnest) (hp : p ∈ s.parts) (ha : a ∈ p.attributes.toList)
    (hop : op ≠ .remove) (hpresent : value.isPresent = true) :
    ((byRecord op p a value).validate s).hasErrors = false ↔
      ((byPath op p a value).validate s).hasErrors = false ∧
        Attribute.FreeOf a Characteristics.ProviderIssued value := by
  rw [validate_byRecord_iff hs hp ha hop, validate_byPath_iff hs hp ha hop hpresent,
    Attribute.freeOf_or_iff, and_assoc]

/-- New shelves may be written either way. -/
theorem validate_forms_shelves :
    storeSchema.Earnest ∧ storeSchema.basePart ∈ storeSchema.parts ∧
      shelves ∈ storeSchema.basePart.attributes.toList ∧
      ((byRecord .add storeSchema.basePart shelves
        (.list [.complex [("label", .string "tea")]])).validate storeSchema).hasErrors = false := by
  have hs : storeSchema.Earnest := Plain.earnest (by decide +kernel)
  have hmem : shelves ∈ storeSchema.basePart.attributes.toList :=
    List.mem_append_right _ List.mem_cons_self
  exact ⟨hs, List.mem_cons_self, hmem, (validate_forms_iff hs List.mem_cons_self hmem (by decide)
    rfl).mpr ⟨by decide +kernel, by decide +kernel⟩⟩

/-- A code is accepted by a path, and rejected in a record. -/
theorem validate_forms_doorCode :
    doorCode ∈ storeSchema.basePart.attributes.toList ∧ Value.isPresent (.string "1234") = true ∧
      ((byPath .add storeSchema.basePart doorCode (.string "1234")).validate
        storeSchema).hasErrors = false ∧
      ((byRecord .add storeSchema.basePart doorCode (.string "1234")).validate
        storeSchema).hasErrors = true := by
  refine ⟨List.mem_append_right _ ?_, rfl, by decide +kernel, by decide +kernel⟩
  exact List.mem_cons_of_mem _ List.mem_cons_self

end Operation

end Scim
