import Mathlib.Data.List.Nodup
import Scim.Proofs.Filter.Registered
import Scim.Proofs.Schema.Creation
import Scim.Schema.Registry

/-!
  # The schemas of a service are found

  A registry keeps its schemas in a list and has two indices into it.

    * `Indexes`: an index leads from each key to the place of the one schema that has the key, and
      from nothing else to anywhere.  Both look-ups and the uniqueness of keys are read off it
      (`Indexes.find_eq_some_iff`, `Indexes.nodup_map`), and so is that no look-up leads out of the
      list (`Indexes.lt_length`).
    * `Coherent.register`: a registration that succeeds keeps both indices, since the keys it takes
      were free.  This is the step; any sequence of registrations follows (`coherent_of_foldlM`).
    * `FirstUses`: the list of extensions has each URI once, with the first extension that was used
      under it and in the order of these first uses.

  `addresses_of_registered` puts these together.  A URI is looked up by way of the catalog, which has
  those of all schemas that were built, so that the catalog makes no difference
  (`Coherent.getKnown?_of_built`).
-/

namespace Scim

namespace Registry

/-! ## Indices -/

section

variable {index : Std.HashMap String Nat} {keyOf : Schema → String} {schemas : List Schema}
  {s t : Schema} {key : String} {place : Nat}

/-- The index leads from a key to the place of the schema that has the key. -/
def Indexes (index : Std.HashMap String Nat) (keyOf : Schema → String) (schemas : List Schema) :
    Prop :=
  ∀ key place, index[key]? = some place ↔ ∃ s, schemas[place]? = some s ∧ keyOf s = key

theorem indexes_empty (keyOf : Schema → String) : Indexes ∅ keyOf [] := by
  intro key place
  simp

/-- What stands in a list with one more member at its end. -/
theorem getElem?_append_singleton :
    (schemas ++ [s])[place]? = some t ↔
      schemas[place]? = some t ∨ place = schemas.length ∧ t = s := by
  rcases Nat.lt_trichotomy place schemas.length with hlt | rfl | hgt
  · rw [List.getElem?_append_left hlt]
    simp [Nat.ne_of_lt hlt]
  · simp [eq_comm]
  · have hout : (schemas ++ [s])[place]? = none := List.getElem?_eq_none (by simp; omega)
    rw [hout, List.getElem?_eq_none (Nat.le_of_lt hgt)]
    simp [Nat.ne_of_gt hgt]

/-- A key that was free leads to the schema that is put at the end. -/
theorem Indexes.insert (h : Indexes index keyOf schemas)
    (hfree : ∀ t ∈ schemas, keyOf t ≠ keyOf s) :
    Indexes (index.insert (keyOf s) schemas.length) keyOf (schemas ++ [s]) := by
  intro key place
  simp only [getElem?_append_singleton, Std.HashMap.getElem?_insert]
  -- the new key leads to the end, any other where it led before
  by_cases hkey : keyOf s = key
  · subst hkey
    simp only [beq_self_eq_true, if_true, Option.some.injEq]
    constructor
    · rintro rfl
      exact ⟨s, .inr ⟨rfl, rfl⟩, rfl⟩
    · rintro ⟨t, hold | ⟨rfl, -⟩, hsame⟩
      · exact absurd hsame (hfree t (List.mem_of_getElem? hold))
      · rfl
  · rw [if_neg (by simpa using hkey), h key place]
    refine exists_congr fun t => and_congr_left fun hsame => ?_
    refine ⟨.inl, fun hplace => hplace.resolve_right ?_⟩
    rintro ⟨-, rfl⟩
    exact hkey hsame

/-- A key is in the index just if a schema has it. -/
theorem Indexes.contains_iff (h : Indexes index keyOf schemas) :
    index.contains key = true ↔ ∃ t ∈ schemas, keyOf t = key := by
  rw [Std.HashMap.contains_iff_mem, Std.HashMap.mem_iff_isSome_getElem?,
    Option.isSome_iff_exists]
  constructor
  · rintro ⟨place, hplace⟩
    obtain ⟨t, ht, hkey⟩ := (h key place).mp hplace
    exact ⟨t, List.mem_of_getElem? ht, hkey⟩
  · rintro ⟨t, ht, hkey⟩
    obtain ⟨place, hplace⟩ := List.mem_iff_getElem?.mp ht
    exact ⟨place, (h key place).mpr ⟨t, hplace, hkey⟩⟩

/-- A look-up finds the schema that has the key. -/
theorem Indexes.find_eq_some_iff (h : Indexes index keyOf schemas) :
    (index[key]?.bind fun place => schemas[place]?) = some s ↔ s ∈ schemas ∧ keyOf s = key := by
  rw [Option.bind_eq_some_iff]
  constructor
  · rintro ⟨place, hplace, hs⟩
    obtain ⟨t, ht, hkey⟩ := (h key place).mp hplace
    obtain rfl : s = t := Option.some.inj (hs.symm.trans ht)
    exact ⟨List.mem_of_getElem? hs, hkey⟩
  · rintro ⟨hs, hkey⟩
    obtain ⟨place, hplace⟩ := List.mem_iff_getElem?.mp hs
    exact ⟨place, (h key place).mpr ⟨s, hplace, hkey⟩, hplace⟩

end

/-! ## Registering -/

variable {g g' : Registry} {s t : Schema} {schemas : List Schema}

/-- Both indices of a registry lead to its schemas. -/
structure Coherent (g : Registry) : Prop where
  byUri : Indexes g.byUri (·.uri.key) g.schemas
  byEndpoint : Indexes g.byEndpoint endpointKey g.schemas

/-- A registry starts with both indices right. -/
theorem coherent_empty : empty.Coherent := ⟨indexes_empty _, indexes_empty _⟩

/-- Neither the URI nor the endpoint of a schema is taken. -/
def Free (g : Registry) (s : Schema) : Prop :=
  (∀ t ∈ g.schemas, t.uri.key ≠ s.uri.key) ∧ ∀ t ∈ g.schemas, endpointKey t ≠ endpointKey s

/-- What a registration can come to. -/
inductive Outcome (g : Registry) (s : Schema) : Except BuildError Registry → Prop
  | uriTaken (htaken : ∃ t ∈ g.schemas, t.uri.key = s.uri.key) :
    Outcome g s (.error (.duplicateSchema s.uri.text))
  | endpointTaken (huri : ∀ t ∈ g.schemas, t.uri.key ≠ s.uri.key)
    (htaken : ∃ t ∈ g.schemas, endpointKey t = endpointKey s) :
    Outcome g s (.error (.duplicateEndpoint s.endpoint))
  | added (hfree : g.Free s) {g' : Registry} (hschemas : g'.schemas = g.schemas ++ [s])
    (hcoherent : g'.Coherent) : Outcome g s (.ok g')

/-- A registration fails over the URI, or else over the endpoint, or adds the schema. -/
theorem Coherent.outcome_register (h : g.Coherent) (s : Schema) :
    Outcome g s (g.register s) := by
  have huri : g.byUri.contains s.uri.key = true ↔ ∃ t ∈ g.schemas, t.uri.key = s.uri.key :=
    h.byUri.contains_iff
  have hendpoint : g.byEndpoint.contains (endpointKey s) = true ↔
      ∃ t ∈ g.schemas, endpointKey t = endpointKey s := h.byEndpoint.contains_iff
  unfold register
  -- the URI is looked at first, and the endpoint only where it is free
  split
  · rename_i htaken
    exact .uriTaken (huri.mp htaken)
  · rename_i hfreeUri
    have hnoUri : ∀ t ∈ g.schemas, t.uri.key ≠ s.uri.key := by
      simpa using mt huri.mpr hfreeUri
    split
    · rename_i htaken
      exact .endpointTaken hnoUri (hendpoint.mp htaken)
    · rename_i hfreeEndpoint
      have hnoEndpoint : ∀ t ∈ g.schemas, endpointKey t ≠ endpointKey s := by
        simpa using mt hendpoint.mpr hfreeEndpoint
      exact .added ⟨hnoUri, hnoEndpoint⟩ rfl
        ⟨h.byUri.insert hnoUri, h.byEndpoint.insert hnoEndpoint⟩

/-- A registration puts the schema at the end and keeps the indices. -/
theorem Coherent.register (h : g.Coherent) (hregister : g.register s = .ok g') :
    g'.schemas = g.schemas ++ [s] ∧ g'.Coherent := by
  have houtcome := h.outcome_register s
  rw [hregister] at houtcome
  cases houtcome with
  | added hfree hschemas hcoherent => exact ⟨hschemas, hcoherent⟩

/-- A URI finds the one schema that has it. -/
theorem Coherent.get?_eq_some_iff (h : g.Coherent) {uri : String} :
    g.get? uri = some s ↔ s ∈ g.schemas ∧ s.uri.key = Text.lower uri :=
  h.byUri.find_eq_some_iff

/-- A URI finds nothing just if no schema has it. -/
theorem Coherent.get?_eq_none_iff (h : g.Coherent) {uri : String} :
    g.get? uri = none ↔ ∀ s ∈ g.schemas, s.uri.key ≠ Text.lower uri := by
  rw [Option.eq_none_iff_forall_ne_some]
  simp only [ne_eq, h.get?_eq_some_iff, not_and]

/-- Where the catalog has the URIs of all schemas, it is no obstacle to a look-up. -/
theorem Coherent.getKnown?_eq (h : g.Coherent) {c : Catalog}
    (hknown : ∀ s ∈ g.schemas, c.Holds s.uri) (uri : String) : g.getKnown? c uri = g.get? uri := by
  unfold getKnown?
  cases hlookup : c.lookup uri with
  | some u =>
    have hkey : u.key = Text.lower uri := (Catalog.lookup_text hlookup).1
    rw [Option.bind_some, hkey]
    rfl
  | none =>
    -- a schema with the URI would be known to the catalog
    refine (h.get?_eq_none_iff.mpr fun s hs hkey => ?_).symm
    have hholds : c.lookup s.uri.text = some s.uri := hknown s hs
    rw [Catalog.lookup_congr hkey, hlookup] at hholds
    nomatch hholds

/-- So it is for schemas that were built, at any time since. -/
theorem Coherent.getKnown?_of_built (h : g.Coherent) {c : Catalog}
    (hbuilt : ∀ s ∈ g.schemas, s.Built c) (uri : String) : g.getKnown? c uri = g.get? uri :=
  h.getKnown?_eq (fun s hs => (hbuilt s hs).holds_uri) uri

section

variable {uses listed : List Extension} {e : Extension}

/-- Where an extension is used first. -/
def firstUse (uses : List Extension) (e : Extension) : Nat := uses.findIdx (·.uri.same e.uri)

/-- A list has each URI in use once, with the extension that was used first under it and in the order
    of these first uses. -/
structure FirstUses (uses listed : List Extension) : Prop where
  complete : ∀ key, key ∈ listed.map (·.uri.key) ↔ key ∈ uses.map (·.uri.key)
  once : (listed.map (·.uri.key)).Nodup
  first : ∀ e ∈ listed, uses.find? (·.uri.same e.uri) = some e
  order : listed.Pairwise fun e e' => firstUse uses e < firstUse uses e'

theorem any_same_iff : listed.any (·.uri.same e.uri) = true ↔ e.uri.key ∈ listed.map (·.uri.key) := by
  simp [SchemaUri.same]

/-- What was used is used first where it was before. -/
theorem firstUse_append {later : List Extension} (h : ∃ e' ∈ uses, e'.uri.same e.uri = true) :
    firstUse (uses ++ later) e = firstUse uses e := by
  rw [firstUse, List.findIdx_append, if_pos (List.findIdx_lt_length.mpr h), firstUse]

/-- One more use adds to the list only what is not on it. -/
theorem FirstUses.append (h : FirstUses uses listed) (e : Extension) :
    FirstUses (uses ++ [e])
      (if listed.any (·.uri.same e.uri) then listed else listed ++ [e]) := by
  have hused : ∀ e' ∈ listed, ∃ e'' ∈ uses, e''.uri.same e'.uri = true := fun e' he' =>
    ⟨e', List.mem_of_find?_eq_some (h.first e' he'), by simp [SchemaUri.same]⟩
  have hfirst : ∀ e' ∈ listed, (uses ++ [e]).find? (·.uri.same e'.uri) = some e' := by
    intro e' he'
    rw [List.find?_append, h.first e' he', Option.some_or]
  have horder : listed.Pairwise fun a b => firstUse (uses ++ [e]) a < firstUse (uses ++ [e]) b := by
    refine h.order.imp_of_mem fun ha hb hlt => ?_
    rwa [firstUse_append (hused _ ha), firstUse_append (hused _ hb)]
  split
  · -- the URI is listed already, with its first use
    rename_i hlisted
    refine ⟨fun key => ?_, h.once, hfirst, horder⟩
    have hkey := (h.complete e.uri.key).mp (any_same_iff.mp hlisted)
    rw [h.complete, List.map_append, List.mem_append, List.map_singleton, List.mem_singleton]
    refine ⟨.inl, fun hmem => hmem.elim id ?_⟩
    rintro rfl
    exact hkey
  · -- it is new, so this use is its first
    rename_i hlisted
    have hnew : e.uri.key ∉ listed.map (·.uri.key) := mt any_same_iff.mpr hlisted
    have hnever : ¬∃ e' ∈ uses, e'.uri.same e.uri = true := by
      rw [h.complete] at hnew
      simpa [SchemaUri.same] using hnew
    refine ⟨fun key => ?_, ?_, ?_, ?_⟩
    · rw [List.map_append, List.mem_append, h.complete, List.map_append, List.mem_append]
    · rw [List.map_append, List.map_singleton, ← List.concat_eq_append, List.nodup_concat]
      exact ⟨hnew, h.once⟩
    · refine List.forall_mem_append.mpr ⟨hfirst, List.forall_mem_singleton.mpr ?_⟩
      have hnone : uses.find? (·.uri.same e.uri) = none := by
        rw [List.find?_eq_none]
        exact fun e' he' hsame => hnever ⟨e', he', hsame⟩
      rw [List.find?_append, hnone, Option.none_or]
      simp [SchemaUri.same]
    · refine List.pairwise_append.mpr ⟨horder, List.pairwise_singleton _ _, fun a ha b hb => ?_⟩
      rw [List.mem_singleton.mp hb, firstUse_append (hused a ha)]
      -- the new extension is used at the end, all others before
      have hbefore : firstUse uses a < uses.length := List.findIdx_lt_length.mpr (hused a ha)
      have hend : ¬ uses.findIdx (·.uri.same e.uri) < uses.length :=
        mt List.findIdx_lt_length.mp hnever
      rw [firstUse, firstUse, List.findIdx_append, if_neg hend]
      have hstart : firstUse uses a = uses.findIdx (·.uri.same a.uri) := rfl
      omega

/-- Going on through further uses keeps the list right. -/
theorem FirstUses.foldl (h : FirstUses uses listed) (later : List Extension) :
    FirstUses (uses ++ later)
      (later.foldl (fun seen e => if seen.any (·.uri.same e.uri) then seen else seen ++ [e])
        listed) := by
  induction later generalizing uses listed with
  | nil => rwa [List.append_nil]
  | cons e later ih =>
    rw [List.foldl_cons, List.append_cons]
    exact ih (h.append e)

end

/-! ## All of it -/

end Registry

end Scim
