import Scim.Proofs.Reference
import Scim.Schema.Presence

/-!
  # What a list of attributes allows

  `Selection.allowed` goes through five rules in order, and the outcome of a rule depends on the kind
  of the list.  All of it comes down to which paths the list names (`Selection.listed`):

    * an inclusion list allows a sub-attribute if it names it or its attribute, and an attribute if
      it names it or one of its sub-attributes;
    * an exclusion list allows a sub-attribute if it names neither it nor its attribute, and an
      attribute if it does not name it.

  The rule about the siblings of a sub-attribute decides nothing: where it applies, neither the
  sub-attribute nor its attribute is named (`allowed_of_isSub`).  And since a name is in a list or is
  not, lists that hold the same references allow the same, whatever their order and however often a
  reference occurs (`listed_congr`).
-/

namespace Scim

namespace Selection

variable {refs refs' : List Reference} {q : Qualified}

/-! ## Names in lists -/

/-- References that are the same up to case name the same paths. -/
theorem names_congr {r r' : Reference} (h : r.same r' = true) (q : Qualified) :
    names r q = names r' q := by
  refine Bool.eq_iff_iff.mpr ?_
  -- plain references are compared with plain ones, and qualified ones with qualified ones
  cases r with
  | plain p =>
    cases r' with
    | plain p' =>
      have hkeys : p.keys = p'.keys := Path.same_iff.mp h
      simp only [names, Path.same_iff, hkeys]
    | qualified => cases h
  | qualified p =>
    cases r' with
    | plain => cases h
    | qualified p' =>
      obtain ⟨hschema, hkeys⟩ := Qualified.same_iff.mp h
      simp only [names, Qualified.same_iff, hschema, hkeys]

/-- The lists hold the same references, up to case, in any order and any number. -/
def SameReferences (refs refs' : List Reference) : Prop :=
  (∀ r ∈ refs, ∃ r' ∈ refs', r.same r' = true) ∧ ∀ r' ∈ refs', ∃ r ∈ refs, r.same r' = true

/-- Lists with the same references name the same paths. -/
theorem listed_congr (h : SameReferences refs refs') (q : Qualified) :
    listed refs q = listed refs' q := by
  refine Bool.eq_iff_iff.mpr ?_
  simp only [listed, List.any_eq_true]
  constructor
  · rintro ⟨r, hr, hnames⟩
    obtain ⟨r', hr', hsame⟩ := h.1 r hr
    exact ⟨r', hr', by rwa [← names_congr hsame]⟩
  · rintro ⟨r', hr', hnames⟩
    obtain ⟨r, hr, hsame⟩ := h.2 r' hr'
    exact ⟨r, hr, by rwa [names_congr hsame]⟩

/-- A reference names a sub-attribute if it names the attribute but for the sub-attribute that it
    names itself. -/
theorem names_child {r : Reference} (hq : q.isSub = false) (sub : Name) :
    names r (q.child sub) = true ↔
      names r.parent q = true ∧ ∃ named, r.sub = some named ∧ named.same sub = true := by
  obtain ⟨schema, attr, none | other⟩ := q
  · have hpath : ∀ p : Path, p.same ⟨attr, some sub⟩ = true ↔
        p.parent.same ⟨attr, none⟩ = true ∧ ∃ named, p.sub = some named ∧ named.same sub = true := by
      rintro ⟨own, none | named⟩ <;> simp [Path.same, Path.sameSub, Path.parent]
    -- in a qualified reference the schema is compared first
    cases r with
    | plain p => exact hpath p
    | qualified p =>
      show (_ && _) = true ↔ (_ && _) = true ∧ _
      rw [Bool.and_eq_true, Bool.and_eq_true, and_assoc]
      exact and_congr_right fun _ => hpath p.path
  · cases hq

/-- The references that name sub-attributes name some sub-attribute of an attribute if they do so
    without regard to the sub-attribute. -/
theorem any_parent_iff (hq : q.isSub = false) :
    (refs.any fun r => r.isSub && names r.parent q) = true ↔
      ∃ sub, listed refs (q.child sub) = true := by
  simp only [listed, List.any_eq_true, Bool.and_eq_true, names_child hq]
  constructor
  · rintro ⟨r, hr, hsub, hnames⟩
    obtain ⟨named, hnamed⟩ := Option.isSome_iff_exists.mp hsub
    exact ⟨named, r, hr, hnames, named, hnamed, by simp [Name.same]⟩
  · rintro ⟨sub, r, hr, hnames, named, hnamed, -⟩
    exact ⟨r, hr, Option.isSome_iff_exists.mpr ⟨named, hnamed⟩, hnames⟩

/-! ## The rules together -/

/-- Of a sub-attribute and its attribute it matters only whether one of them is listed: the rule about
    siblings applies where neither is, and then says what the last rule would. -/
theorem allowed_of_isSub {s : Selection} {included : Bool} (hs : s.includes? = some included)
    (hq : q.isSub = true) :
    s.allowed q = ((listed s.refs q || listed s.refs q.parent) == included) := by
  unfold allowed
  rw [hs]
  dsimp only
  rw [if_pos hq]
  -- the rules in their order, as far as one applies
  cases hown : listed s.refs q with
  | true => cases included <;> rfl
  | false =>
    cases hparent : listed s.refs q.parent with
    | true => cases included <;> simp
    | false => cases included <;> simp

/-- Of an attribute an inclusion list may name a sub-attribute instead. -/
theorem allowed_of_not_isSub {s : Selection} {included : Bool} (hs : s.includes? = some included)
    (hq : q.isSub = false) :
    s.allowed q = ((listed s.refs q || included && s.refs.any fun r => r.isSub && names r.parent q) ==
      included) := by
  unfold allowed
  rw [hs]
  dsimp only
  rw [hq]
  cases hown : listed s.refs q with
  | true => cases included <;> rfl
  | false =>
    cases included with
    | false => simp
    | true => cases s.refs.any fun r => r.isSub && names r.parent q <;> simp

/-- An inclusion list allows a sub-attribute if it names it or its attribute. -/
theorem allowed_including_sub (hq : q.isSub = true) : (including refs).allowed q = true ↔
    listed refs q = true ∨ listed refs q.parent = true := by
  rw [allowed_of_isSub rfl hq, beq_true, Bool.or_eq_true]
  rfl

/-- It allows an attribute if it names it or one of its sub-attributes. -/
theorem allowed_including_attr (hq : q.isSub = false) : (including refs).allowed q = true ↔
    listed refs q = true ∨ ∃ sub, listed refs (q.child sub) = true := by
  rw [allowed_of_not_isSub rfl hq, beq_true, Bool.true_and, Bool.or_eq_true, any_parent_iff hq]
  rfl

/-- An exclusion list allows a sub-attribute if it names neither it nor its attribute. -/
theorem allowed_excluding_sub (hq : q.isSub = true) : (excluding refs).allowed q = true ↔
    ¬listed refs q = true ∧ ¬listed refs q.parent = true := by
  rw [allowed_of_isSub rfl hq, beq_false, Bool.not_eq_true', Bool.or_eq_false_iff,
    Bool.not_eq_true, Bool.not_eq_true]
  rfl

/-- It allows an attribute if it does not name it. -/
theorem allowed_excluding_attr (hq : q.isSub = false) :
    (excluding refs).allowed q = true ↔ ¬listed refs q = true := by
  rw [allowed_of_not_isSub rfl hq, beq_false, Bool.not_eq_true', Bool.false_and, Bool.or_false,
    Bool.not_eq_true]
  rfl

/-! ## Order, parents and inclusivity -/

/-- Lists with the same references allow the same. -/
theorem allowed_congr (h : SameReferences refs refs') (q : Qualified) :
    (including refs).allowed q = (including refs').allowed q ∧
      (excluding refs).allowed q = (excluding refs').allowed q := by
  have hlisted := listed_congr h
  cases hq : q.isSub with
  | true =>
    constructor
    · exact Bool.eq_iff_iff.mpr (by simp only [allowed_including_sub hq, hlisted])
    · exact Bool.eq_iff_iff.mpr (by simp only [allowed_excluding_sub hq, hlisted])
  | false =>
    constructor
    · exact Bool.eq_iff_iff.mpr (by simp only [allowed_including_attr hq, hlisted])
    · exact Bool.eq_iff_iff.mpr (by simp only [allowed_excluding_attr hq, hlisted])

/-- Lists that name and allow the same hold the same for asked for or declined. -/
theorem inclusivity_congr {s s' : Selection} (hincludes : s.includes? = s'.includes?)
    (hlisted : ∀ q, listed s.refs q = listed s'.refs q) (hallowed : s.allowed q = s'.allowed q) :
    s.inclusivity q = s'.inclusivity q := by
  simp only [inclusivity, hincludes, hlisted, hallowed]

/-- A sub-attribute is the child of its attribute. -/
theorem exists_eq_child (hq : q.isSub = true) : ∃ sub, q = q.parent.child sub := by
  obtain ⟨sub, hsub⟩ := Option.isSome_iff_exists.mp hq
  obtain ⟨schema, attr, own⟩ := q
  obtain rfl : own = some sub := hsub
  exact ⟨sub, rfl⟩

/-- What is allowed is so together with its attribute. -/
theorem allowed_parent {s : Selection} (h : s.allowed q = true) : s.allowed q.parent = true := by
  cases hq : q.isSub with
  | false =>
    -- an attribute is its own parent
    obtain ⟨schema, attr, none | sub⟩ := q
    · exact h
    · cases hq
  | true =>
    -- an inclusion list may name the attribute by the sub-attribute; in an exclusion list neither
    -- is named
    cases s with
    | everything => rfl
    | including refs =>
      refine (allowed_including_attr rfl).mpr ?_
      rcases (allowed_including_sub hq).mp h with hown | hparent
      · obtain ⟨sub, hsub⟩ := exists_eq_child hq
        exact .inr ⟨sub, hsub ▸ hown⟩
      · exact .inl hparent
    | excluding refs => exact (allowed_excluding_attr rfl).mpr ((allowed_excluding_sub hq).mp h).2

/-- What was asked for by name is allowed. -/
theorem allowed_of_requested
    (h : listed refs q = true ∨ q.isSub = true ∧ listed refs q.parent = true) :
    (including refs).allowed q = true := by
  cases hq : q.isSub with
  | true => exact (allowed_including_sub hq).mpr (h.imp_right And.right)
  | false =>
    have hown : listed refs q = true := h.resolve_right (by simp [hq])
    exact (allowed_including_attr hq).mpr (.inl hown)

/-- What is asked for is allowed. -/
theorem inclusivity_eq_included {s : Selection} (h : s.inclusivity q = some .included) :
    s.allowed q = true := by
  -- only by an inclusion list something is asked for
  unfold inclusivity at h
  dsimp only at h
  split at h
  · rename_i hasked
    simp only [Bool.and_eq_true, Bool.or_eq_true, beq_iff_eq] at hasked
    cases s with
    | including refs => exact allowed_of_requested hasked.2
    | everything => exact absurd hasked.1 (by simp [includes?])
    | excluding => exact absurd hasked.1 (by simp [includes?])
  · split at h
    · cases h
    · cases h

/-- What is declined is what is not allowed: nothing of it was asked for by name. -/
theorem inclusivity_eq_excluded_iff {s : Selection} :
    s.inclusivity q = some .excluded ↔ s.allowed q = false := by
  constructor
  · intro h
    unfold inclusivity at h
    dsimp only at h
    split at h
    · cases h
    · split at h
      · rename_i hdeclined
        simpa using hdeclined
      · cases h
  · -- what is not allowed is not asked for, so it is declined
    intro h
    have hincluded : s.inclusivity q ≠ some .included := by
      intro hincluded
      rw [inclusivity_eq_included hincluded] at h
      cases h
    unfold inclusivity at hincluded ⊢
    dsimp only at hincluded ⊢
    split at hincluded
    · exact absurd rfl hincluded
    · rename_i hasked
      rw [if_neg hasked, h]
      rfl

end Selection

/-! ## Presence configurations -/

namespace Presence

open Selection (SameReferences listed)

/-- Two configurations allow the same, and hold the same for asked for or declined. -/
def SameAnswers (p p' : Presence) : Prop :=
  ∀ q, p.allowed q = p'.allowed q ∧ p.inclusivity q = p'.inclusivity q

/-- What a list allows depends on the paths that it names, and neither on its order nor on
    repetitions; a sub-attribute is allowed together with its attribute only. -/
theorem allowed_iff_named (config : Presence) (refs : List Reference) (uri : SchemaUri)
    (attr sub : Name) :
    let rep := Qualified.ofAttr uri attr
    let child := rep.child sub
    (((config.including refs).allowed child = true ↔
          listed refs child = true ∨ listed refs rep = true) ∧
        ((config.including refs).allowed rep = true ↔
          listed refs rep = true ∨ ∃ other, listed refs (rep.child other) = true)) ∧
      (((config.excluding refs).allowed child = true ↔
          ¬listed refs child = true ∧ ¬listed refs rep = true) ∧
        ((config.excluding refs).allowed rep = true ↔ ¬listed refs rep = true)) ∧
      (∀ refs', SameReferences refs refs' →
        (config.including refs).SameAnswers (config.including refs') ∧
          (config.excluding refs).SameAnswers (config.excluding refs')) ∧
      (config.allowed child = true → config.allowed rep = true) ∧
      ∀ q, (config.inclusivity q = some .excluded ↔ config.allowed q = false) ∧
        (config.inclusivity q = some .included → config.allowed q = true) := by
  intro rep child
  refine ⟨⟨?_, ?_⟩, ⟨?_, ?_⟩, ?_, ?_, fun q => ⟨?_, ?_⟩⟩
  · exact Selection.allowed_including_sub rfl
  · exact Selection.allowed_including_attr rfl
  · exact Selection.allowed_excluding_sub rfl
  · exact Selection.allowed_excluding_attr rfl
  · intro refs' h
    have hlisted := Selection.listed_congr h
    have hallowed := Selection.allowed_congr h
    exact ⟨fun q => ⟨(hallowed q).1, Selection.inclusivity_congr rfl hlisted (hallowed q).1⟩,
      fun q => ⟨(hallowed q).2, Selection.inclusivity_congr rfl hlisted (hallowed q).2⟩⟩
  · exact Selection.allowed_parent (q := child)
  · exact Selection.inclusivity_eq_excluded_iff
  · exact Selection.inclusivity_eq_included

/-! ## Two lists -/

/-- The schema of guests. -/
def guestUri : SchemaUri := ⟨"urn:Guest", false, by decide +kernel⟩

/-- The address of a guest. -/
def address : Name := ⟨"address", by decide +kernel⟩

/-- Its street. -/
def street : Name := ⟨"street", by decide +kernel⟩

/-- The street of any address, and the phone of guests. -/
def streetAndPhone : List Reference :=
  [.plain ⟨address, some street⟩, .qualified (.ofAttr guestUri ⟨"phone", by decide +kernel⟩)]

/-- The same in another order, the street twice. -/
def phoneAndStreets : List Reference :=
  [.qualified (.ofAttr guestUri ⟨"PHONE", by decide +kernel⟩), .plain ⟨address, some street⟩,
    .plain ⟨⟨"Address", by decide +kernel⟩, some street⟩]

/-- Who asks for a street asks for the address but not for its other sub-attributes; and it makes no
    difference how the list is written. -/
theorem allowed_iff_named_street :
    SameReferences streetAndPhone phoneAndStreets ∧
      (response.including phoneAndStreets).allowed ((Qualified.ofAttr guestUri address).child street) =
        true ∧
      (response.including streetAndPhone).allowed (.ofAttr guestUri address) = true ∧
      (response.including streetAndPhone).inclusivity
        ((Qualified.ofAttr guestUri address).child .value) = some .excluded := by
  have hsame : SameReferences streetAndPhone phoneAndStreets := by
    unfold SameReferences
    decide +kernel
  have hstreet : listed streetAndPhone ((Qualified.ofAttr guestUri address).child street) = true := by
    decide +kernel
  have hvalue : ¬(listed streetAndPhone ((Qualified.ofAttr guestUri address).child .value) = true ∨
      listed streetAndPhone (.ofAttr guestUri address) = true) := by
    decide +kernel
  have hasked := allowed_iff_named (response.including streetAndPhone) streetAndPhone guestUri address
  obtain ⟨⟨hchild, -⟩, -, hlists, hparent, -⟩ := hasked street
  obtain ⟨⟨hother, -⟩, -, -, -, hdeclined⟩ := hasked .value
  have hallowed := hchild.mpr (.inl hstreet)
  refine ⟨hsame, ?_, hparent hallowed, (hdeclined _).1.mpr ?_⟩
  · have hanswers := (hlists phoneAndStreets hsame).1
    exact ((hanswers _).1).symm.trans hallowed
  · exact Bool.eq_false_iff.mpr (mt hother.mp hvalue)

end Presence

end Scim
