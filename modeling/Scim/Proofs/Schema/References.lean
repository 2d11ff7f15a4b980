import Scim.Proofs.Schema.Parts
import Scim.Schema.Resolution

/-!
  # Listing, finding and resolving are about the same attributes

  Three walks go over the parts of a schema: one lists the references of everything there is, one
  finds what a qualified path names, and one binds the references of users.  They meet in what a part
  defines (`Part.Defines`), which speaks of declared names only:

    * `references` lists what the parts define, as declared (`mem_references`);
    * `attribute?` finds what the part of the schema defines up to case (`attribute?_eq_some_iff`);
    * `resolve?` takes the first part that defines the path up to case
      (`resolve?_plain_eq_some_iff`).

  That nothing is listed twice rests on what makes a schema: no two attributes of a set and no two
  parts have one name.
-/

namespace Scim

namespace Schema

variable {s : Schema} {p : Part} {own path : Path} {q : Qualified} {r : Reference}
  {a target : Attribute}

/-! ## What a part defines -/

/-- The attributes and sub-attributes of a part, with their paths as declared. -/
inductive Part.Defines (p : Part) : Path → Attribute → Prop
  | attr {a : Attribute} (ha : a ∈ p.attributes.toList) : p.Defines ⟨a.name, none⟩ a
  | sub {a : Attribute} {subs : AttributeSet SimpleKind} {sub : SubAttribute}
    (ha : a ∈ p.attributes.toList) (hsubs : a.subs? = some subs) (hsub : sub ∈ subs.toList) :
    p.Defines ⟨a.name, some sub.name⟩ sub.lift

/-- Something that the part defines has the path, up to case. -/
def Part.Knows (p : Part) (path : Path) : Prop :=
  ∃ own target, p.Defines own target ∧ own.same path = true

/-- A path finds what has the path up to case. -/
theorem Part.attribute?_eq_some_iff : p.attribute? path = some target ↔
    ∃ own, p.Defines own target ∧ own.same path = true := by
  simp only [Path.same_iff, Path.keys]
  constructor
  · -- what was found has the very keys of the path
    intro h
    obtain ⟨a, ha, htarget⟩ := Part.attribute?_eq_some h
    obtain ⟨ha, hkey⟩ := AttributeSet.find?_eq_some ha
    rcases htarget with ⟨hnone, rfl⟩ | ⟨name, subs, sub, hname, hsubs, hsub, rfl⟩
    · exact ⟨_, .attr ha, by rw [hkey, hnone]⟩
    · obtain ⟨hsub, hsubKey⟩ := AttributeSet.find?_eq_some hsub
      refine ⟨_, .sub ha hsubs hsub, ?_⟩
      rw [hkey, hname, Option.map_some, Option.map_some, hsubKey]
  · -- names are unique in their set, so each look-up finds the definition itself
    rintro ⟨own, hown, hkeys⟩
    obtain ⟨hattr, hsub⟩ := Prod.mk.inj hkeys
    cases hown with
    | attr ha =>
      have hnone : path.sub = none := Option.map_eq_none_iff.mp hsub.symm
      have hfind := find?_eq_some_iff.mpr ⟨ha, hattr⟩
      simp only [Part.attribute?, hfind, hnone, Option.bind_eq_bind, Option.bind_some]
    | sub ha hsubs hmem =>
      obtain ⟨name, hname, hkey⟩ := Option.map_eq_some_iff.mp hsub.symm
      have hfind := find?_eq_some_iff.mpr ⟨ha, hattr⟩
      have hfindSub := find?_eq_some_iff.mpr ⟨hmem, hkey.symm⟩
      simp only [Part.attribute?, hfind, hname, hsubs, hfindSub, Option.bind_eq_bind,
        Option.bind_some, Option.map_some]

/-- A part knows a path just if the path finds something in it. -/
theorem Part.knows_iff : p.Knows path ↔ (p.attribute? path).isSome = true := by
  simp only [Option.isSome_iff_exists, Part.attribute?_eq_some_iff]
  constructor
  · rintro ⟨own, target, hown, hsame⟩
    exact ⟨target, own, hown, hsame⟩
  · rintro ⟨target, own, hown, hsame⟩
    exact ⟨own, target, hown, hsame⟩

/-! ## Finding -/

/-- A qualified path finds what the part of its schema defines. -/
theorem attribute?_eq_some_iff : s.attribute? q = some target ↔
    ∃ p ∈ s.parts, ∃ own, p.Defines own target ∧ Qualified.same ⟨p.uri, own⟩ q = true := by
  simp only [attribute?, Option.bind_eq_some_iff, part?_eq_some_iff, Part.attribute?_eq_some_iff,
    Qualified.same_iff, Path.same_iff]
  constructor
  · rintro ⟨p, ⟨hp, huri⟩, own, hown, hsame⟩
    exact ⟨p, hp, own, hown, huri, hsame⟩
  · rintro ⟨p, hp, own, hown, huri, hsame⟩
    exact ⟨p, ⟨hp, huri⟩, own, hown, hsame⟩

/-- What a part defines is found under the path as declared. -/
theorem attribute?_of_defines (hp : p ∈ s.parts) (hown : p.Defines own target) :
    s.attribute? ⟨p.uri, own⟩ = some target :=
  attribute?_eq_some_iff.mpr ⟨p, hp, own, hown, Qualified.same_self _⟩

/-! ## Listing -/

/-- An attribute is listed after its sub-attributes, all under the URI of the part. -/
theorem Part.mem_referencesOf : q ∈ p.referencesOf a ↔
    q = ⟨p.uri, ⟨a.name, none⟩⟩ ∨ ∃ subs, a.subs? = some subs ∧
      ∃ sub ∈ subs.toList, q = ⟨p.uri, ⟨a.name, some sub.name⟩⟩ := by
  unfold referencesOf
  cases a.subs? with
  | none => simp [Qualified.ofAttr]
  | some subs => simp [Qualified.ofAttr, Qualified.child, Path.child, or_comm, eq_comm]

/-- What is listed is what the parts define. -/
theorem mem_references : q ∈ s.references ↔
    ∃ p ∈ s.parts, ∃ own target, p.Defines own target ∧ q = ⟨p.uri, own⟩ := by
  simp only [references, List.mem_flatMap, Part.mem_referencesOf]
  constructor
  · rintro ⟨p, hp, a, ha, rfl | ⟨subs, hsubs, sub, hsub, rfl⟩⟩
    · exact ⟨p, hp, _, a, .attr ha, rfl⟩
    · exact ⟨p, hp, _, _, .sub ha hsubs hsub, rfl⟩
  · rintro ⟨p, hp, own, target, hown, rfl⟩
    cases hown with
    | attr ha => exact ⟨p, hp, target, ha, .inl rfl⟩
    | sub ha hsubs hsub => exact ⟨p, hp, _, ha, .inr ⟨_, hsubs, _, hsub, rfl⟩⟩

/-- A path finds something just if it is listed, up to case. -/
theorem exists_mem_references_iff :
    (∃ l ∈ s.references, l.same q = true) ↔ ∃ target, s.attribute? q = some target := by
  simp only [mem_references, attribute?_eq_some_iff]
  constructor
  · rintro ⟨_, ⟨p, hp, own, target, hown, rfl⟩, hsame⟩
    exact ⟨target, p, hp, own, hown, hsame⟩
  · rintro ⟨target, p, hp, own, hown, hsame⟩
    exact ⟨_, ⟨p, hp, own, target, hown, rfl⟩, hsame⟩

/-- Within an attribute the names of the sub-attributes keep the references apart. -/
theorem Part.pairwise_referencesOf :
    (p.referencesOf a).Pairwise fun q q' => q.same q' = false := by
  unfold referencesOf
  cases a.subs? with
  | none => exact List.pairwise_singleton _ _
  | some subs =>
    refine List.pairwise_append.mpr ⟨?_, List.pairwise_singleton _ _, ?_⟩
    · refine List.pairwise_map.mpr ((List.pairwise_map.mp subs.distinct).imp fun hne => ?_)
      rw [Bool.eq_false_iff, Ne, Qualified.same_iff]
      rintro ⟨-, hkeys⟩
      simp only [Qualified.child, Path.child, Path.keys, Option.map_some, Prod.mk.injEq,
        Option.some.injEq, true_and] at hkeys
      exact hne hkeys
    · -- the attribute itself comes last, and has no second name
      intro q hq q' hq'
      obtain ⟨sub, -, rfl⟩ := List.mem_map.mp hq
      obtain rfl := List.mem_singleton.mp hq'
      rw [Bool.eq_false_iff, Ne, Qualified.same_iff]
      rintro ⟨-, hkeys⟩
      simp [Qualified.child, Qualified.ofAttr, Path.child, Path.keys] at hkeys

/-- What is listed for an attribute has the URI of the part and the name of the attribute. -/
theorem Part.of_mem_referencesOf (h : q ∈ p.referencesOf a) :
    q.schema = p.uri ∧ q.path.attr = a.name := by
  rcases Part.mem_referencesOf.mp h with rfl | ⟨subs, -, sub, -, rfl⟩
  · exact ⟨rfl, rfl⟩
  · exact ⟨rfl, rfl⟩

/-- No reference is listed twice. -/
theorem pairwise_references (s : Schema) :
    s.references.Pairwise fun q q' => q.same q' = false := by
  refine List.pairwise_flatMap.mpr ⟨fun p _ => ?_, ?_⟩
  · -- within a part the names of the attributes keep the references apart
    refine List.pairwise_flatMap.mpr ⟨fun a _ => Part.pairwise_referencesOf, ?_⟩
    refine (List.pairwise_map.mp p.attributes.distinct).imp fun hne q hq q' hq' => ?_
    rw [Bool.eq_false_iff, Ne, Qualified.same_iff]
    rintro ⟨-, hkeys⟩
    have hattr : q.path.attr.key = q'.path.attr.key := congrArg Prod.fst hkeys
    rw [(Part.of_mem_referencesOf hq).2, (Part.of_mem_referencesOf hq').2] at hattr
    exact hne hattr
  · -- between parts the URIs do
    refine (List.pairwise_map.mp s.nodup_keys_parts).imp fun hne q hq q' hq' => ?_
    obtain ⟨a, -, hq⟩ := List.mem_flatMap.mp hq
    obtain ⟨a', -, hq'⟩ := List.mem_flatMap.mp hq'
    rw [Bool.eq_false_iff, Ne, Qualified.same_iff]
    rintro ⟨hschema, -⟩
    rw [(Part.of_mem_referencesOf hq).1, (Part.of_mem_referencesOf hq').1] at hschema
    exact hne hschema

/-! ## What is required -/

/-- For one attribute, what is required of the references is what finds a required definition. -/
theorem requiredReferencesOf_eq_filter (hp : p ∈ s.parts) (ha : a ∈ p.attributes.toList) :
    p.requiredReferencesOf a =
      (p.referencesOf a).filter fun q => (s.attribute? q).any (·.required) := by
  have hself : s.attribute? (.ofAttr p.uri a.name) = some a := attribute?_of_defines hp (.attr ha)
  have hlast : (if a.required then [Qualified.ofAttr p.uri a.name] else []) =
      [Qualified.ofAttr p.uri a.name].filter fun q => (s.attribute? q).any (·.required) := by
    rw [List.filter_singleton, hself, Option.any_some, Bool.cond_eq_ite]
  unfold Part.requiredReferencesOf Part.referencesOf
  rw [List.filter_append, ← hlast]
  cases hsubs : a.subs? with
  | none => rfl
  | some subs =>
    -- each reference finds the sub-attribute that it was made from
    have hsub : ∀ sub ∈ subs.toList,
        (s.attribute? ((Qualified.ofAttr p.uri a.name).child sub.name)).any (·.required) =
          sub.required := by
      intro sub hsub
      show (s.attribute? ⟨p.uri, ⟨a.name, some sub.name⟩⟩).any (·.required) = _
      rw [attribute?_of_defines hp (.sub ha hsubs hsub)]
      rfl
    have hfilter : subs.toList.filter (·.required) = subs.toList.filter
        ((fun q => (s.attribute? q).any (·.required)) ∘
          fun sub => (Qualified.ofAttr p.uri a.name).child sub.name) :=
      List.filter_congr fun sub hmem => (hsub sub hmem).symm
    dsimp only
    rw [List.filter_map, hfilter]

/-- The required references are those listed whose definition is required. -/
theorem requiredReferences_eq_filter (s : Schema) :
    s.requiredReferences = s.references.filter fun q => (s.attribute? q).any (·.required) := by
  rw [requiredReferences, references, List.filter_flatMap]
  refine List.flatMap_congr fun p hp => ?_
  rw [List.filter_flatMap]
  exact List.flatMap_congr fun a ha => requiredReferencesOf_eq_filter hp ha

/-! ## Resolving -/

/-- A qualified reference is bound to itself, if it finds something. -/
theorem resolve?_qualified_eq_some_iff {q' : Qualified} :
    s.resolve? (.qualified q) = some q' ↔ q' = q ∧ ∃ target, s.attribute? q = some target := by
  rw [resolve?, ← Option.isSome_iff_exists]
  by_cases h : (s.attribute? q).isSome = true
  · rw [if_pos h]
    simp [h, eq_comm]
  · rw [if_neg h]
    simp [h]

/-- A plain reference is bound to the first part that knows its path. -/
theorem resolve?_plain_eq_some_iff : s.resolve? (.plain path) = some q ↔
    ∃ before p after, s.parts = before ++ p :: after ∧ (∀ p' ∈ before, ¬p'.Knows path) ∧
      p.Knows path ∧ q = ⟨p.uri, path⟩ := by
  simp only [resolve?, Option.map_eq_some_iff, List.find?_eq_some_iff_append, Part.knows_iff]
  constructor
  · rintro ⟨p, ⟨hknows, before, after, hparts, hbefore⟩, rfl⟩
    exact ⟨before, p, after, hparts, by simpa using hbefore, hknows, rfl⟩
  · rintro ⟨before, p, after, hparts, hbefore, hknows, rfl⟩
    exact ⟨p, ⟨hknows, before, after, hparts, by simpa using hbefore⟩, rfl⟩

/-- A reference is bound to nothing just if no part that it may speak of knows its path. -/
theorem resolve?_eq_none_iff : s.resolve? r = none ↔
    ∀ p ∈ s.parts, (∀ uri ∈ r.schema?, p.uri.same uri = true) → ¬p.Knows r.path := by
  cases r with
  | plain path =>
    simp [resolve?, Part.knows_iff, Reference.schema?, Reference.path]
  | qualified q =>
    have hqualified : s.resolve? (.qualified q) = none ↔ ¬∃ target, s.attribute? q = some target := by
      rw [resolve?, ← Option.isSome_iff_exists]
      simp
    rw [hqualified, not_exists]
    simp only [attribute?_eq_some_iff, Reference.schema?, Reference.path, Option.mem_some_iff]
    constructor
    · rintro h p hp huri ⟨own, target, hown, hsame⟩
      exact h target ⟨p, hp, own, hown, Bool.and_eq_true_iff.mpr ⟨huri _ rfl, hsame⟩⟩
    · rintro h target ⟨p, hp, own, hown, hsame⟩
      obtain ⟨huri, hsame⟩ := Bool.and_eq_true_iff.mp hsame
      exact h p hp (fun _ heq => heq ▸ huri) ⟨own, target, hown, hsame⟩

/-- What a reference is bound to has the path of the reference, and is listed. -/
theorem of_resolve?_eq_some (h : s.resolve? r = some q) :
    q.path = r.path ∧ ∃ l ∈ s.references, l.same q = true := by
  rw [exists_mem_references_iff]
  cases r with
  | qualified q' =>
    obtain ⟨rfl, hfound⟩ := resolve?_qualified_eq_some_iff.mp h
    exact ⟨rfl, hfound⟩
  | plain path =>
    obtain ⟨before, p, after, hparts, -, ⟨own, target, hown, hsame⟩, rfl⟩ :=
      resolve?_plain_eq_some_iff.mp h
    have hp : p ∈ s.parts := by simp [hparts]
    refine ⟨rfl, target, attribute?_eq_some_iff.mpr ⟨p, hp, own, hown, ?_⟩⟩
    exact Bool.and_eq_true_iff.mpr ⟨by simp [SchemaUri.same], hsame⟩

/-! ## All of it -/

/-- How the references of a schema are listed, found and resolved. -/
structure ReferencesAgree (s : Schema) : Prop where
  /-- No reference is listed twice. -/
  once : s.references.Pairwise fun q q' => q.same q' = false
  /-- What is listed is what finds something. -/
  listed : ∀ q, (∃ l ∈ s.references, l.same q = true) ↔ ∃ target, s.attribute? q = some target
  found : ∀ q target, s.attribute? q = some target ↔
    ∃ p ∈ s.parts, ∃ own, p.Defines own target ∧ Qualified.same ⟨p.uri, own⟩ q = true
  required : s.requiredReferences =
    s.references.filter fun q => (s.attribute? q).any (·.required)
  /-- What a reference is bound to is listed, and has the names of the reference. -/
  bound : ∀ r q, s.resolve? r = some q → q.path = r.path ∧ ∃ l ∈ s.references, l.same q = true
  qualified : ∀ q q', s.resolve? (.qualified q) = some q' ↔
    q' = q ∧ ∃ target, s.attribute? q = some target
  /-- The base goes before the extensions, and these go in their order. -/
  plain : ∀ path q, s.resolve? (.plain path) = some q ↔
    ∃ before p after, s.basePart :: s.extensionParts = before ++ p :: after ∧
      (∀ p' ∈ before, ¬p'.Knows path) ∧ p.Knows path ∧ q = ⟨p.uri, path⟩
  unbound : ∀ r, s.resolve? r = none ↔
    ∀ p ∈ s.parts, (∀ uri ∈ r.schema?, p.uri.same uri = true) → ¬p.Knows r.path

/-- The references of every schema are listed, found and resolved consistently. -/
theorem references_agree (s : Schema) : s.ReferencesAgree where
  once := s.pairwise_references
  listed _ := exists_mem_references_iff
  found _ _ := attribute?_eq_some_iff
  required := s.requiredReferences_eq_filter
  bound _ _ := of_resolve?_eq_some
  qualified _ _ := resolve?_qualified_eq_some_iff
  plain _ _ := resolve?_plain_eq_some_iff
  unbound _ := resolve?_eq_none_iff

end Schema

end Scim
