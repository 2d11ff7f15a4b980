import Scim.Proofs.Catalog
import Scim.Proofs.Filter.Reading
import Scim.Proofs.Reference
import Scim.Schema.Resolution

/-!
  # Registered URIs

  A catalog settles the casing of a URI and whether it is an extension: two URIs that it holds are
  one if they are the same up to case (`Catalog.Holds.eq_of_key`).  The URIs of a schema are
  registered when the schema is built (`Schema.registered_of_build`), and a reference can only be read
  where its URI is (`Reference.registered_of_parse`, `Filter.registered_of_parse`).  Both stay so, for
  a catalog only grows (`Catalog.Holds.after`).  What is said of registered schemas is therefore true
  of every schema that was built (`Schema.Built.registered`), whatever was registered since.
-/

namespace Scim

/-! ## References -/

/-- The URI of the reference is registered, if it has one. -/
def Reference.Registered (c : Catalog) (r : Reference) : Prop := ∀ u ∈ r.schema?, c.Holds u

instance (c : Catalog) (r : Reference) : Decidable (Reference.Registered c r) := by
  unfold Reference.Registered
  infer_instance

/-- A reference is read only where its URI is known to the catalog. -/
theorem Reference.registered_of_parse {c : Catalog} {s : String} {r : Reference}
    (h : parse c s = .ok r) : r.Registered c := by
  intro u hu
  cases r with
  | plain p => simp [schema?] at hu
  | qualified q =>
    obtain ⟨uri, -, hlookup⟩ := parse_eq_ok_qualified.mp h
    obtain rfl : q.schema = u := by simpa [schema?] using hu
    exact Catalog.holds_of_lookup hlookup

namespace Filter

/-- All references of a filter, from left to right. -/
def references : Filter → List Reference
  | .and left right | .or left right => left.references ++ right.references
  | .not inner | .group inner => inner.references
  | .leaf f => [f.attr]
  | .complex attr inner => attr :: inner.references

/-- The URIs of all references are registered. -/
def Registered (c : Catalog) (f : Filter) : Prop := ∀ r ∈ f.references, r.Registered c

instance (c : Catalog) (f : Filter) : Decidable (f.Registered c) :=
  inferInstanceAs (Decidable (∀ r ∈ f.references, r.Registered c))

/-- Every path of a filter is parsed on its own, so each is registered. -/
theorem registered_of_derives {ctx : FilterContext} {phrase : Phrase} {scope : Option Reference}
    {tokens : List Token} {f : Filter} (h : ctx.Derives phrase scope tokens f) :
    f.Registered ctx.catalog := by
  induction h with
  | conjunction _ ih | term _ ih => exact ih
  | or _ _ _ ihl ihr | and _ _ _ ihl ihr => exact List.forall_mem_append.mpr ⟨ihl, ihr⟩
  | not _ _ ih => exact ih
  | group _ _ _ ih => exact ih
  | complex _ _ _ hname _ _ ih =>
    exact List.forall_mem_cons.mpr ⟨Reference.registered_of_parse hname.parsed, ih⟩
  | unary _ _ hname | binary _ _ _ hname =>
    exact List.forall_mem_singleton.mpr (Reference.registered_of_parse hname.parsed)

/-- A filter that was read from a text refers to registered URIs only. -/
theorem registered_of_parse {c : Catalog} {operators : Operators} (hops : operators.Built)
    {s : String} (hs : Masked.border ∉ s.toList) {f : Filter} (h : parse c operators s = .ok f) :
    f.Registered c :=
  registered_of_derives ((parse_iff_derives c hops hs f).mp h).2

end Filter

/-! ## Schemas -/

namespace Schema

/-- The URIs of the base and of all extensions are registered. -/
def Registered (c : Catalog) (s : Schema) : Prop := ∀ u ∈ s.uris, c.Holds u

instance (c : Catalog) (s : Schema) : Decidable (s.Registered c) :=
  inferInstanceAs (Decidable (∀ u ∈ s.uris, c.Holds u))

/-- A schema stays registered, whatever is registered then. -/
theorem Registered.after {c : Catalog} {s : Schema} (h : s.Registered c)
    (calls : List Registration) : s.Registered (c.after calls) :=
  fun u hu => (h u hu).after calls

/-- A schema that was built is registered, if its extensions are. -/
theorem registered_of_build {c c' : Catalog} {uri name endpoint description : String}
    {attributes : List Attribute} {extensions : List ExtensionUse} {s : Schema}
    (h : build c uri name endpoint description attributes extensions = .ok (s, c'))
    (hextensions : ∀ use ∈ extensions, c.Holds use.extension.uri) : s.Registered c' := by
  unfold build at h
  split at h
  · simp at h
  · rename_i u grown hregister
    split at h
    · simp at h
    · split at h
      · simp at h
      · split at h
        · simp at h
        · simp only [Except.ok.injEq, Prod.mk.injEq] at h
          obtain ⟨rfl, rfl⟩ := h
          -- its own URI is the one that was registered, and registering it has left the others
          simp only [Registered, uris, parts, basePart, extensionParts, List.map_cons,
            List.map_map, List.forall_mem_cons, List.forall_mem_map]
          exact ⟨Catalog.holds_of_register hregister, fun use huse =>
            (hextensions use huse).register hregister⟩

end Schema

/-! ## Schemas of one process -/

/-- The extension was built, and the catalog is the one of the process at some time since. -/
inductive Extension.Built : Catalog → Extension → Prop
  | build {c c' : Catalog} {uri name description : String} {attributes : List Attribute}
    {e : Extension} : Extension.build c uri name description attributes = .ok (e, c') →
    Extension.Built c' e
  | later {c : Catalog} {e : Extension} (calls : List Registration) : Extension.Built c e →
    Extension.Built (c.after calls) e

/-- An extension that was built is registered. -/
theorem Extension.holds_of_build {c c' : Catalog} {uri name description : String}
    {attributes : List Attribute} {e : Extension}
    (h : build c uri name description attributes = .ok (e, c')) : c'.Holds e.uri := by
  unfold build at h
  split at h
  · simp at h
  · rename_i u grown hregister
    -- only the set of the attributes can be refused now
    obtain ⟨set, -, hset⟩ := bind_eq_ok.mp h
    simp only [pure, Except.pure, Except.ok.injEq, Prod.mk.injEq] at hset
    obtain ⟨rfl, rfl⟩ := hset
    exact Catalog.holds_of_register hregister

/-- And it stays so in the catalog of its process. -/
theorem Extension.Built.holds {c : Catalog} {e : Extension} (h : Extension.Built c e) :
    c.Holds e.uri := by
  induction h with
  | build h => exact holds_of_build h
  | later calls _ ih => exact ih.after calls

namespace Schema

/-- The schema was built with extensions that had been built, and the catalog is the one of the
    process at some time since. -/
inductive Built : Catalog → Schema → Prop
  | build {c c' : Catalog} {uri name endpoint description : String} {attributes : List Attribute}
    {extensions : List ExtensionUse} {s : Schema} :
    Schema.build c uri name endpoint description attributes extensions = .ok (s, c') →
    (∀ use ∈ extensions, use.extension.Built c) → Built c' s
  | later {c : Catalog} {s : Schema} (calls : List Registration) : Built c s →
    Built (c.after calls) s

/-- So every schema that a process can have is registered, at any time after it was built. -/
theorem Built.registered {c : Catalog} {s : Schema} (h : s.Built c) : s.Registered c := by
  induction h with
  | build h hextensions => exact registered_of_build h fun use huse => (hextensions use huse).holds
  | later calls _ ih => exact ih.after calls

theorem Built.holds_uri {c : Catalog} {s : Schema} (h : s.Built c) : c.Holds s.uri :=
  h.registered s.uri List.mem_cons_self

end Schema

end Scim
