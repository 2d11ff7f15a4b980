import Scim.Catalog

/-!
  # The catalog only grows

  The catalog decides what every qualified reference, path and key means, for as long as the program
  runs.  Calls to register come in any order, with clashing casings and flags, and some of them fail.

    * `Outcome`: all that a call can come to (`outcome_register`);
    * `lookup_register`: what is found after such a call is what was found before, or else the new URI.
      This is the step that carries everything below: what is found once is found for good
      (`lookup_after_of_lookup`);
    * `lookup_after`: so after any sequence of calls a text finds what the first call that succeeded
      for it has registered.

  `appendOnly` puts these together for a catalog that started empty.
-/

namespace Scim

namespace Catalog

variable {c c' : Catalog} {u v : SchemaUri} {uri text : String} {isExtension : Bool}

/-! ## What is found -/

/-- The casing of a text does not matter to what it finds. -/
theorem lookup_congr (h : Text.lower uri = Text.lower text) : c.lookup uri = c.lookup text := by
  show c.uris.find? _ = c.uris.find? _
  rw [h]

/-- What is found up to case is found by its own text. -/
theorem lookup_text (h : c.lookup uri = some u) :
    Text.lower u.text = Text.lower uri ∧ c.lookup u.text = some u := by
  have hkey : Text.lower u.text = Text.lower uri := by simpa [SchemaUri.key] using List.find?_some h
  exact ⟨hkey, (lookup_congr hkey).trans h⟩

/-- The catalog has the URI just as it is. -/
def Holds (c : Catalog) (u : SchemaUri) : Prop := c.lookup u.text = some u

instance (c : Catalog) (u : SchemaUri) : Decidable (c.Holds u) :=
  inferInstanceAs (Decidable (c.lookup u.text = some u))

theorem holds_of_lookup (h : c.lookup uri = some u) : c.Holds u := (lookup_text h).2

/-- What is the same up to case is the same. -/
theorem Holds.eq_of_key (hu : c.Holds u) (hv : c.Holds v) (h : u.key = v.key) : u = v := by
  have hlookup : c.lookup u.text = c.lookup v.text := lookup_congr h
  rw [hu, hv] at hlookup
  exact Option.some.inj hlookup

/-! ## One call -/

/-- What a call to register can come to. -/
inductive Outcome (c : Catalog) (uri : String) (isExtension : Bool) :
    Except BuildError (SchemaUri × Catalog) → Prop
  | malformed (hformed : SchemaUri.isWellFormed uri = false) :
    Outcome c uri isExtension (.error (.invalidName uri))
  | conflicting (hformed : SchemaUri.isWellFormed uri = true) {u : SchemaUri}
    (hfound : c.lookup uri = some u) (hflag : u.isExtension ≠ isExtension) :
    Outcome c uri isExtension (.error (.conflictingSchema uri))
  /-- The URI is known, and nothing changes. -/
  | known (hformed : SchemaUri.isWellFormed uri = true) {u : SchemaUri}
    (hfound : c.lookup uri = some u) (hflag : u.isExtension = isExtension) :
    Outcome c uri isExtension (.ok (u, c))
  /-- Nothing is known under the URI, and it is appended. -/
  | fresh (hformed : SchemaUri.isWellFormed uri = true) (hnone : c.lookup uri = none) {u : SchemaUri}
    (htext : u.text = uri) (hflag : u.isExtension = isExtension) :
    Outcome c uri isExtension (.ok (u, ⟨c.uris ++ [u]⟩))

/-- Every call comes to one of the four. -/
theorem outcome_register (c : Catalog) (uri : String) (isExtension : Bool) :
    Outcome c uri isExtension (c.register uri isExtension) := by
  unfold register
  split
  · rename_i hformed
    split
    · rename_i u hfound
      split
      · rename_i hflag
        exact .known hformed hfound hflag
      · rename_i hflag
        exact .conflicting hformed hfound hflag
    · rename_i hnone
      exact .fresh hformed hnone rfl rfl
  · rename_i hformed
    exact .malformed (Bool.eq_false_iff.mpr hformed)

/-- A call fails with a malformed name just where the text is malformed. -/
theorem register_eq_invalidName : c.register uri isExtension = .error (.invalidName uri) ↔
    SchemaUri.isWellFormed uri = false := by
  have houtcome := outcome_register c uri isExtension
  generalize c.register uri isExtension = result at houtcome
  cases houtcome with
  | malformed hformed => simp [hformed]
  | conflicting hformed | known hformed | fresh hformed => simp [hformed]

/-- A call fails with a conflict just where the text is known with the other flag. -/
theorem register_eq_conflictingSchema :
    c.register uri isExtension = .error (.conflictingSchema uri) ↔
      SchemaUri.isWellFormed uri = true ∧ ∃ u, c.lookup uri = some u ∧ u.isExtension ≠ isExtension := by
  have houtcome := outcome_register c uri isExtension
  generalize c.register uri isExtension = result at houtcome
  cases houtcome with
  | malformed hformed => simp [hformed]
  | conflicting hformed hfound hflag => simp [hformed, hfound, hflag]
  | known hformed hfound hflag => simp [hfound, hflag]
  | fresh hformed hnone => simp [hnone]

/-- There is no other way to fail. -/
theorem error_of_register {e : BuildError} (h : c.register uri isExtension = .error e) :
    e = .invalidName uri ∨ e = .conflictingSchema uri := by
  have houtcome := outcome_register c uri isExtension
  rw [h] at houtcome
  cases houtcome with
  | malformed => exact .inl rfl
  | conflicting => exact .inr rfl

/-- What is found after a call is what was found before, or else the URI of the call. -/
theorem lookup_register (h : c.register uri isExtension = .ok (u, c')) (text : String) :
    c'.lookup text = (c.lookup text).or (if Text.lower uri = Text.lower text then some u else none) := by
  have houtcome := outcome_register c uri isExtension
  rw [h] at houtcome
  cases houtcome with
  | known hformed hfound hflag =>
    -- the catalog is the same, and for the text of the call it finds the same as before
    by_cases hsame : Text.lower uri = Text.lower text
    · rw [(lookup_congr hsame).symm.trans hfound, Option.some_or]
    · rw [if_neg hsame, Option.or_none]
  | fresh hformed hnone htext hflag =>
    have hkey : u.key = Text.lower uri := congrArg Text.lower htext
    show (c.uris ++ [u]).find? _ = (c.uris.find? _).or _
    -- it is appended, so that it is found where nothing else is
    rw [List.find?_append]
    congr 1
    by_cases hsame : Text.lower uri = Text.lower text <;> simp [hkey, hsame]

/-- A call takes nothing away. -/
theorem Holds.register (hv : c.Holds v) (h : c.register uri isExtension = .ok (u, c')) :
    c'.Holds v := by
  show c'.lookup v.text = some v
  rw [lookup_register h, show c.lookup v.text = some v from hv, Option.some_or]

/-- The URI that a call gives is the one that is found from then on. -/
theorem lookup_of_register (h : c.register uri isExtension = .ok (u, c')) :
    c'.lookup uri = some u := by
  rw [lookup_register h, if_pos rfl]
  have houtcome := outcome_register c uri isExtension
  rw [h] at houtcome
  cases houtcome with
  | known hformed hfound => rw [hfound, Option.some_or]
  | fresh hformed hnone => rw [hnone, Option.none_or]

theorem holds_of_register (h : c.register uri isExtension = .ok (u, c')) : c'.Holds u :=
  holds_of_lookup (lookup_of_register h)

end Catalog

/-! ## Sequences of calls -/

/-- A call to register a URI. -/
structure Registration where
  uri : String
  isExtension : Bool
deriving DecidableEq

/-- What a URI was registered by. -/
def SchemaUri.registration (u : SchemaUri) : Registration := ⟨u.text, u.isExtension⟩

namespace Catalog

variable {c : Catalog} {call : Registration} {calls : List Registration} {uri : String}
  {u : SchemaUri}

/-- What a call answers. -/
def answer (c : Catalog) (call : Registration) : Except BuildError SchemaUri :=
  (c.register call.uri call.isExtension).map (·.1)

/-- The catalog after a call.  One that fails leaves nothing behind. -/
def next (c : Catalog) (call : Registration) : Catalog :=
  match c.register call.uri call.isExtension with
  | .ok (_, c') => c'
  | .error _ => c

/-- The catalog after a sequence of calls. -/
def after (c : Catalog) (calls : List Registration) : Catalog := calls.foldl next c

/-- The calls of a sequence that succeed, in order. -/
def accepted (c : Catalog) : List Registration → List Registration
  | [] => []
  | call :: rest =>
    match c.answer call with
    | .ok _ => call :: accepted (c.next call) rest
    | .error _ => accepted (c.next call) rest

/-- A call answers with a URI just if it registers it, and the next catalog is the one it gives. -/
theorem answer_eq_ok : c.answer call = .ok u ↔
    c.register call.uri call.isExtension = .ok (u, c.next call) := by
  unfold answer next
  cases c.register call.uri call.isExtension with
  | error e => simp [Except.map]
  | ok result =>
    obtain ⟨w, c'⟩ := result
    simp [Except.map]

/-- A call answers with an error just if registering fails with it. -/
theorem answer_eq_error {e : BuildError} : c.answer call = .error e ↔
    c.register call.uri call.isExtension = .error e := by
  unfold answer
  cases c.register call.uri call.isExtension <;> simp [Except.map]

/-- A URI under which nothing was known keeps the casing and the flag of its call. -/
theorem registration_of_answer (h : c.answer call = .ok u) (hnone : c.lookup call.uri = none) :
    u.registration = call := by
  have houtcome := outcome_register c call.uri call.isExtension
  rw [answer_eq_ok.mp h] at houtcome
  generalize c.next call = c' at houtcome
  cases houtcome with
  | known hformed hfound =>
    rw [hnone] at hfound
    nomatch hfound
  | fresh hformed _ htext hflag =>
    show Registration.mk u.text u.isExtension = call
    rw [htext, hflag]

/-- A call that fails changes nothing, nor does one for a URI that is known. -/
theorem next_eq_self (h : (∃ e, c.answer call = .error e) ∨ ∃ u, c.lookup call.uri = some u) :
    c.next call = c := by
  simp only [answer_eq_error] at h
  show (match c.register call.uri call.isExtension with
    | .ok (_, c') => c'
    | .error _ => c) = c
  have houtcome := outcome_register c call.uri call.isExtension
  generalize c.register call.uri call.isExtension = result at h houtcome
  cases houtcome with
  | malformed | conflicting | known => rfl
  -- only such a call changes the catalog, and it is none of the two
  | fresh hformed hnone =>
    rcases h with ⟨e, he⟩ | ⟨u, hu⟩
    · nomatch he
    · rw [hnone] at hu
      nomatch hu

/-- What is found stays, whatever call comes next. -/
theorem lookup_next_of_lookup (h : c.lookup uri = some u) (call : Registration) :
    (c.next call).lookup uri = some u := by
  cases hcall : c.answer call with
  | error e => rwa [next_eq_self (.inl ⟨e, hcall⟩)]
  | ok w => rw [lookup_register (answer_eq_ok.mp hcall), h, Option.some_or]

/-- What is found stays for good. -/
theorem lookup_after_of_lookup (h : c.lookup uri = some u) (calls : List Registration) :
    (c.after calls).lookup uri = some u := by
  induction calls generalizing c with
  | nil => exact h
  | cons call rest ih => exact ih (lookup_next_of_lookup h call)

theorem Holds.after (h : c.Holds u) (calls : List Registration) : (c.after calls).Holds u :=
  lookup_after_of_lookup h calls

/-- After a sequence of calls a text finds what it found before, or else what the first call has
    registered that succeeded for it. -/
theorem lookup_after (c : Catalog) (calls : List Registration) (uri : String) :
    ((c.after calls).lookup uri).map SchemaUri.registration =
      ((c.lookup uri).map SchemaUri.registration).or
        ((c.accepted calls).find? fun call => Text.lower call.uri == Text.lower uri) := by
  induction calls generalizing c with
  | nil =>
    show (c.lookup uri).map _ = _
    simp [accepted]
  | cons call rest ih =>
    show ((c.next call).after rest |>.lookup uri).map _ = _
    rw [ih]
    cases hcall : c.answer call with
    | error e => simp only [accepted, hcall, next_eq_self (.inl ⟨e, hcall⟩)]
    | ok w =>
      have hregister := answer_eq_ok.mp hcall
      simp only [accepted, hcall, List.find?_cons]
      rw [lookup_register hregister]
      cases hbefore : c.lookup uri with
      | some v => simp
      | none =>
        -- nothing was known under the text, so the call is new if it is one for it
        by_cases hsame : Text.lower call.uri = Text.lower uri
        · have hnew : w.registration = call := registration_of_answer hcall
            ((lookup_congr hsame).trans hbefore)
          simp [hsame, hnew]
        · have hother : (Text.lower call.uri == Text.lower uri) = false := by simpa using hsame
          simp [hsame, hother]

/-! ## All of it -/

/-- What a catalog knows that started empty, and what one more call does to it. -/
structure AppendOnly (calls : List Registration) : Prop where
  /-- A text finds what the first call has registered that succeeded for it, and nothing if there is
      none. -/
  firstWins : ∀ uri, ((empty.after calls).lookup uri).map SchemaUri.registration =
    (empty.accepted calls).find? fun call => Text.lower call.uri == Text.lower uri
  malformed : ∀ call, (empty.after calls).answer call = .error (.invalidName call.uri) ↔
    SchemaUri.isWellFormed call.uri = false
  conflicting : ∀ call, (empty.after calls).answer call = .error (.conflictingSchema call.uri) ↔
    SchemaUri.isWellFormed call.uri = true ∧
      ∃ u, (empty.after calls).lookup call.uri = some u ∧ u.isExtension ≠ call.isExtension
  /-- There is no other way to fail. -/
  failures : ∀ call e, (empty.after calls).answer call = .error e →
    e = .invalidName call.uri ∨ e = .conflictingSchema call.uri
  /-- A call that fails, or is one for a URI that is known, leaves every look-up as it was. -/
  traceless : ∀ call, (∃ e, (empty.after calls).answer call = .error e) ∨
      (∃ u, (empty.after calls).lookup call.uri = some u) →
    ∀ uri, ((empty.after calls).next call).lookup uri = (empty.after calls).lookup uri
  /-- A URI that a call gives has the flag of the call, and is found from then on. -/
  obtained : ∀ call u, (empty.after calls).answer call = .ok u →
    u.isExtension = call.isExtension ∧
      ∀ later, (((empty.after calls).next call).after later).lookup call.uri = some u
  /-- A URI that was found stays as it is, with its flag. -/
  stays : ∀ uri u, (empty.after calls).lookup uri = some u →
    ∀ later, ((empty.after calls).after later).lookup uri = some u

/-- The catalog is append-only, and the first registration of a URI wins. -/
theorem appendOnly (calls : List Registration) : AppendOnly calls where
  firstWins uri := by
    have hempty : empty.lookup uri = none := rfl
    rw [lookup_after, hempty, Option.map_none, Option.none_or]
  malformed _ := answer_eq_error.trans register_eq_invalidName
  conflicting _ := answer_eq_error.trans register_eq_conflictingSchema
  failures _ _ h := error_of_register (answer_eq_error.mp h)
  traceless _ h _ := by rw [next_eq_self h]
  obtained _ _ h :=
    have hregister := answer_eq_ok.mp h
    ⟨isExtension_of_register hregister, lookup_after_of_lookup (lookup_of_register hregister)⟩
  stays _ _ h := lookup_after_of_lookup h

/-- The second call is a repetition in another casing, the third contradicts the first, the fourth
    is malformed. -/
example : ((empty.after [⟨"urn:Staff", true⟩, ⟨"URN:staff", true⟩, ⟨"urn:staff", false⟩,
    ⟨"urn:", false⟩]).lookup "urn:STAFF").map SchemaUri.registration = some ⟨"urn:Staff", true⟩ := by
  decide +kernel

end Catalog

end Scim
