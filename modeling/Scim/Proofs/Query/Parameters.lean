import Scim.Proofs.Issues
import Scim.Proofs.Issues.Confined
import Scim.Proofs.Issues.Everywhere
import Scim.Query.Parameters

/-!
  # The order of parameters does not matter

  Parameters are read one after the other into one query and one collection of issues, and what is
  read later finds what was read before.  Yet none depends on another:

    * what a parameter changes about a query is one field, or nothing (`Query.Changes`), and changes
      of different fields commute;
    * what a parameter finds wrong does not depend on the query at all, and lies at a place of its
      own, so that it is found there whatever was found before.

  So the parameters that are known make up the query and the issues in any order, and the others are
  passed over (`Query.parse_perm`).  That not both lists of attributes are given is looked at when
  all is read.
-/

namespace Scim

open Issues (Confined)
open Location (Apart)

/-! ## Names -/

namespace Parameter

/-- The name is that of a parameter, up to the case of the letters A to Z. -/
def Known (name : String) : Prop :=
  ∃ p : Parameter, Text.sameAscii p.text.toList name.toList = true

theorem mem_all (p : Parameter) : p ∈ all := by
  cases p <;> decide

/-- A name is that of the parameter it is looked up as. -/
theorem sameAscii_of_ofName? {name : String} {p : Parameter} (h : ofName? name = some p) :
    Text.sameAscii p.text.toList name.toList = true := by
  have hname := List.find?_some h
  exact hname

/-- A name is looked up in vain just if it is that of no parameter. -/
theorem ofName?_eq_none_iff {name : String} : ofName? name = none ↔ ¬Known name := by
  -- the search runs over all parameters
  rw [ofName?, List.find?_eq_none, Known, not_exists]
  exact ⟨fun h p => h p p.mem_all, fun h p _ => h p⟩

instance (name : String) : Decidable (Known name) :=
  decidable_of_iff (¬ofName? name = none) (not_congr ofName?_eq_none_iff |>.trans not_not)

/-- Different parameters have different names. -/
theorem text_injective {p p' : Parameter} (h : p.text = p'.text) : p = p' := by
  cases p <;> cases p' <;> first | rfl | simp [text] at h

/-- Issues of different parameters lie apart. -/
theorem apart_location {p p' : Parameter} (h : p ≠ p') : Apart p.location p'.location :=
  Location.apart_singleton fun hstep => h (text_injective (Step.name.inj hstep))

/-- The parameters among those given, with their values. -/
def given (params : List (String × String)) : List (Parameter × String) :=
  params.filterMap fun param => (ofName? param.1).map fun p => (p, param.2)

/-- No name of a parameter is given twice. -/
def Unrepeated (params : List (String × String)) : Prop :=
  params.Pairwise fun a b => Known a.1 → Known b.1 → Text.sameAscii a.1.toList b.1.toList = false

/-- If no name is given twice, then no parameter is. -/
theorem Unrepeated.nodup {params : List (String × String)} (h : Unrepeated params) :
    ((given params).map (·.1)).Nodup := by
  refine List.pairwise_map.mpr (List.pairwise_filterMap.mpr (h.imp ?_))
  intro a b hne g hg g' hg' heq
  obtain ⟨p, hp, rfl⟩ := Option.map_eq_some_iff.mp hg
  obtain ⟨p', hp', rfl⟩ := Option.map_eq_some_iff.mp hg'
  obtain rfl : p = p' := heq
  -- two names of one parameter are the same up to case
  have ha := sameAscii_of_ofName? hp
  have hb := sameAscii_of_ofName? hp'
  have hsame := hne ⟨p, ha⟩ ⟨p, hb⟩
  simp only [Text.sameAscii, beq_iff_eq, beq_eq_false_iff_ne] at ha hb hsame
  exact hsame (ha.symm.trans hb)

end Parameter

namespace Query

/-! ## What a parameter changes -/

/-- What the value of a parameter can change about a query: what the parameter is about, within what
    the service supports, or nothing. -/
inductive Changes (config : ServiceConfig) : Parameter → (Query → Query) → Prop
  | nothing (p : Parameter) : Changes config p fun q => q
  | attributes (l : Option AttributeList) :
    Changes config .attributes fun q => { q with attributes := l }
  | excludedAttributes (l : Option AttributeList) :
    Changes config .excludedAttributes fun q => { q with excludedAttributes := l }
  | filter (f : Filter) (hsupported : config.filter.supported = true) :
    Changes config .filter fun q => { q with filter := some f }
  | sortBy (r : Reference) (hsupported : config.sort.supported = true) :
    Changes config .sortBy fun q => { q with sortBy := some r }
  | sortOrder (order : SortOrder) :
    Changes config .sortOrder fun q => { q with sortOrder := order }
  | startIndex {n : Nat} (hfirst : 1 ≤ n) :
    Changes config .startIndex fun q => { q with startIndex := n }
  | count {n : Nat} (hmost : n ≤ config.filter.maxResults) :
    Changes config .count fun q => { q with count := some n }

/-- What a value of a parameter changes. -/
def change (ctx : QueryContext) (p : Parameter) (value : String) (q : Query) : Query :=
  (q.set ctx p value).1

/-- What is wrong with a value of a parameter. -/
def found (ctx : QueryContext) (p : Parameter) (value : String) : Issues :=
  (set ctx {} p value).2

variable {ctx : QueryContext} {config : ServiceConfig} {p p' : Parameter} {value : String}
  {f f' : Query → Query} {q : Query}

/-- The value of a parameter changes at most its field, and what is wrong with it does not depend on
    the query. -/
def Settles (ctx : QueryContext) (p : Parameter) (value : String) : Prop :=
  ∃ f issues, Changes ctx.config p f ∧ ∀ q, set ctx q p value = (f q, issues)

/-- A value that is rejected whatever the query is settles: it changes nothing. -/
theorem Settles.of_rejected {e : Error} (h : ∀ q, set ctx q p value = q.rejected e) :
    Settles ctx p value :=
  ⟨_, .fatal e .root, .nothing p, h⟩

/-- Every value settles, so that what is found wrong with one does not depend on what was read
    before it. -/
theorem settles (ctx : QueryContext) (p : Parameter) (value : String) : Settles ctx p value := by
  -- a parameter is either not supported, or its value is read or not, and none of this looks at the
  -- query
  cases p with
  | attributes =>
    cases hread : AttributeList.parse ctx.catalog value with
    | ok l => exact ⟨_, .empty, .attributes (some l), fun q => by rw [set, withList, hread]⟩
    | error issues => exact ⟨_, issues, .attributes none, fun q => by rw [set, withList, hread]⟩
  | excludedAttributes =>
    cases hread : AttributeList.parse ctx.catalog value with
    | ok l =>
      exact ⟨_, .empty, .excludedAttributes (some l), fun q => by rw [set, withList, hread]⟩
    | error issues =>
      exact ⟨_, issues, .excludedAttributes none, fun q => by rw [set, withList, hread]⟩
  | filter =>
    cases hsupported : ctx.config.filter.supported with
    | false =>
      exact .of_rejected (e := .notSupported "filtering") fun q => by simp [set, hsupported]
    | true =>
      cases hread : Filter.parse ctx.catalog ctx.operators value with
      | ok f => exact ⟨_, .empty, .filter f hsupported, fun q => by simp [set, hsupported, hread]⟩
      | error issues => exact ⟨_, issues, .nothing _, fun q => by simp [set, hsupported, hread]⟩
  | sortBy =>
    cases hsupported : ctx.config.sort.supported with
    | false =>
      exact .of_rejected (e := .notSupported "sorting") fun q => by simp [set, hsupported]
    | true =>
      cases hread : Reference.parse ctx.catalog (Text.trim value) with
      | ok r => exact ⟨_, .empty, .sortBy r hsupported, fun q => by simp [set, hsupported, hread]⟩
      | error e => exact .of_rejected (e := e) fun q => by simp [set, hsupported, hread]
  | sortOrder =>
    cases hread : SortOrder.parse (Text.trim value) with
    | ok order => exact ⟨_, .empty, .sortOrder order, fun q => by simp [set, hread]⟩
    | error e => exact .of_rejected (e := e) fun q => by simp [set, hread]
  | startIndex =>
    cases hread : readInteger? (Text.trimBlanks value.toList) with
    | some n =>
      -- smaller numbers are taken for 1
      have hfirst : 1 ≤ (max n 1).toNat := by omega
      exact ⟨_, .empty, .startIndex hfirst, fun q => by simp [set, withInteger, hread]⟩
    | none =>
      exact .of_rejected (e := .badType "integer" "string") fun q => by
        simp [set, withInteger, hread]
  | count =>
    cases hread : readInteger? (Text.trimBlanks value.toList) with
    | some n =>
      -- the number is cut to the most that the service returns
      have hmost : min (max n 0).toNat ctx.config.filter.maxResults ≤
          ctx.config.filter.maxResults := Nat.min_le_right _ _
      exact ⟨_, .empty, .count hmost, fun q => by simp [set, withInteger, hread]⟩
    | none =>
      exact .of_rejected (e := .badType "integer" "string") fun q => by
        simp [set, withInteger, hread]

/-- Setting a parameter is to change the query and to find what is wrong, each by itself. -/
theorem set_eq (ctx : QueryContext) (q : Query) (p : Parameter) (value : String) :
    set ctx q p value = (change ctx p value q, found ctx p value) := by
  obtain ⟨f, issues, -, heq⟩ := settles ctx p value
  rw [change, found, heq, heq]

/-- What a value changes about a query is at most the field of its parameter. -/
theorem changes_change (ctx : QueryContext) (p : Parameter) (value : String) :
    Changes ctx.config p (change ctx p value) := by
  obtain ⟨f, issues, hchanges, heq⟩ := settles ctx p value
  have hf : change ctx p value = f := by
    funext q
    rw [change, heq]
  rwa [hf]

/-- Changes of different fields commute. -/
theorem Changes.comm (h : Changes config p f) (h' : Changes config p' f') (hne : p ≠ p')
    (q : Query) : f (f' q) = f' (f q) := by
  cases h <;> cases h' <;> first | rfl | exact absurd rfl hne

/-- A query asks for nothing but what the service supports. -/
structure Allowed (config : ServiceConfig) (q : Query) : Prop where
  startIndex : 1 ≤ q.startIndex
  count : ∀ n ∈ q.count, n ≤ config.filter.maxResults
  filter : config.filter.supported = false → q.filter = none
  sortBy : config.sort.supported = false → q.sortBy = none

/-- The query that asks for nothing is allowed. -/
theorem allowed_default (config : ServiceConfig) : Allowed config {} where
  startIndex := Nat.le_refl 1
  count := by simp
  filter _ := rfl
  sortBy _ := rfl

/-- A change keeps a query within what is allowed: values out of bounds are cut to them, and what is
    not supported is never set. -/
theorem Changes.allowed (h : Changes config p f) (hq : q.Allowed config) :
    (f q).Allowed config := by
  cases h with
  | filter f hsupported => exact { hq with filter := fun hnot => by simp [hsupported] at hnot }
  | sortBy r hsupported => exact { hq with sortBy := fun hnot => by simp [hsupported] at hnot }
  | startIndex hfirst => exact { hq with startIndex := hfirst }
  | count hmost => exact { hq with count := by simpa using hmost }
  | _ => exact { hq with }

/-! ## Reading all of them -/

/-- The query that values of parameters make of another. -/
def takenFrom (ctx : QueryContext) (gs : List (Parameter × String)) (q : Query) : Query :=
  gs.foldl (fun q g => change ctx g.1 g.2 q) q

/-- The issues of values of parameters, after those found before. -/
def foundIn (ctx : QueryContext) (gs : List (Parameter × String)) (x : Issues) : Issues :=
  gs.foldl (fun x g => x.merge (found ctx g.1 g.2) g.1.location) x

/-- What comes of a query and the issues found: attributes can not be asked for and excluded at
    once. -/
def conclude (q : Query) (issues : Issues) : Except Issues Query :=
  let issues :=
    if q.attributes.isSome && q.excludedAttributes.isSome then
      issues.addError (.cannotBeUsedTogether Parameter.excludedAttributes.text) false
        Parameter.attributes.location
    else issues
  if issues.hasErrors then .error issues else .ok q

/-- Reading parameters one after the other takes the changes and the issues of those that are known,
    each in their order. -/
theorem foldl_readOne (ctx : QueryContext) (params : List (String × String)) (q : Query)
    (x : Issues) : params.foldl (readOne ctx) (q, x) =
      (takenFrom ctx (Parameter.given params) q, foundIn ctx (Parameter.given params) x) := by
  -- on the parameters, for any query and issues that those before have left
  induction params generalizing q x with
  | nil => rfl
  | cons param params ih =>
    rw [List.foldl_cons]
    cases hname : Parameter.ofName? param.1 with
    -- an unknown name is passed over on both sides
    | none =>
      have hread : readOne ctx (q, x) param = (q, x) := by simp only [readOne, hname]
      have hgiven : Parameter.given (param :: params) = Parameter.given params := by
        simp [Parameter.given, hname]
      rw [hread, hgiven, ih]
    | some p =>
      have hread : readOne ctx (q, x) param =
          (change ctx p param.2 q, x.merge (found ctx p param.2) p.location) := by
        simp only [readOne, hname, set_eq]
      have hgiven : Parameter.given (param :: params) =
          (p, param.2) :: Parameter.given params := by
        simp [Parameter.given, hname]
      rw [hread, hgiven, ih]
      rfl

/-- A query is what the known parameters make of the default one, concluded with the issues that
    they have. -/
theorem parse_eq_conclude (ctx : QueryContext) (params : List (String × String)) :
    parse ctx params = conclude (takenFrom ctx (Parameter.given params) {})
      (foundIn ctx (Parameter.given params) .empty) := by
  rw [parse, foldl_readOne]
  rfl

/-! ## In any order -/

section

variable {gs gs' : List (Parameter × String)}

/-- Parameters that are not repeated make up the same query in any order. -/
theorem takenFrom_perm (hperm : gs.Perm gs') (hnodup : (gs.map (·.1)).Nodup) (q : Query) :
    takenFrom ctx gs q = takenFrom ctx gs' q := by
  refine hperm.foldl_eq' (fun g hg g' hg' q => ?_) q
  -- two entries of one parameter are the same entry, and others change different fields
  by_cases hne : g'.1 = g.1
  · rw [List.inj_on_of_nodup_map hnodup hg' hg hne]
  · exact (changes_change ctx g'.1 g'.2).comm (changes_change ctx g.1 g.2) hne q

/-- The issues of one parameter lie at its place. -/
theorem confined_found (ctx : QueryContext) (g : Parameter × String) :
    Confined g.1.location fun x => x.merge (found ctx g.1 g.2) g.1.location :=
  Confined.merge _ List.prefix_rfl

/-- Nothing is found at the root, for every issue lies at the name of a parameter. -/
theorem root_not_mem_places_foundIn (ctx : QueryContext) (gs : List (Parameter × String)) :
    [] ∉ (foundIn ctx gs .empty).places := by
  intro hroot
  obtain ⟨g, -, hprefix⟩ := (Issues.mem_places_foldl (fun g : Parameter × String => g.1.location)
    (fun g _ => confined_found ctx g) hroot).resolve_left (by simp)
  simp [Parameter.location, Location.ofName] at hprefix

/-- A parameter that is not repeated finds what it would find alone. -/
theorem within_foundIn_of_mem (hnodup : (gs.map (·.1)).Nodup) {g : Parameter × String}
    (hg : g ∈ gs) : (foundIn ctx gs .empty).within g.1.location =
      Issues.empty.merge (found ctx g.1 g.2) g.1.location :=
  Issues.within_foldl_of_mem (fun g : Parameter × String => g.1.location)
    (fun g _ => confined_found ctx g)
    ((List.pairwise_map.mp hnodup).imp Parameter.apart_location) hg (Issues.openAbove_empty _)

/-- Nothing is found elsewhere. -/
theorem within_foundIn_of_forall_ne {step : Step} (h : ∀ g ∈ gs, g.1.location ≠ [step]) :
    (foundIn ctx gs .empty).within [step] = .empty := by
  refine Issues.within_foldl_of_apart (fun g : Parameter × String => g.1.location)
    (fun g _ => confined_found ctx g) fun g hg => ?_
  exact Location.apart_singleton fun hstep => h g hg (congrArg (fun step => [step]) hstep)

/-- The issues of parameters that are not repeated are the same everywhere in any order. -/
theorem foundIn_perm (hperm : gs.Perm gs') (hnodup : (gs.map (·.1)).Nodup) :
    (foundIn ctx gs .empty).SameEverywhere (foundIn ctx gs' .empty) := by
  have hnodup' : (gs'.map (·.1)).Nodup := (hperm.map _).nodup_iff.mp hnodup
  -- issues are compared step by step below the root, where none are
  refine .of_within (root_not_mem_places_foundIn ctx gs) (root_not_mem_places_foundIn ctx gs')
    fun step => ?_
  by_cases hplace : ∃ g ∈ gs, g.1.location = [step]
  · obtain ⟨g, hg, hstep⟩ := hplace
    rw [← hstep, within_foundIn_of_mem hnodup hg,
      within_foundIn_of_mem hnodup' (hperm.mem_iff.mp hg)]
  · have hne : ∀ g ∈ gs, g.1.location ≠ [step] := fun g hg hstep => hplace ⟨g, hg, hstep⟩
    rw [within_foundIn_of_forall_ne hne,
      within_foundIn_of_forall_ne fun g hg => hne g (hperm.mem_iff.mpr hg)]

/-- Whether anything is wrong does not depend on the order. -/
theorem hasErrors_foundIn_perm (hperm : gs.Perm gs') :
    (foundIn ctx gs .empty).hasErrors = (foundIn ctx gs' .empty).hasErrors := by
  rw [← Bool.not_inj_iff, Bool.eq_iff_iff]
  simp only [foundIn, Bool.not_eq_true', Issues.hasErrors_foldl_merge, hperm.mem_iff]

end

/-- The same query is accepted, or the same issues are found everywhere. -/
inductive SameAnswer : Except Issues Query → Except Issues Query → Prop
  | ok (q : Query) : SameAnswer (.ok q) (.ok q)
  | error {x y : Issues} (h : x.SameEverywhere y) : SameAnswer (.error x) (.error y)

/-- Queries are concluded alike from issues that are the same everywhere. -/
theorem sameAnswer_conclude {x y : Issues} (q : Query) (h : x.SameEverywhere y)
    (herrors : x.hasErrors = y.hasErrors) : SameAnswer (conclude q x) (conclude q y) := by
  unfold conclude
  -- the error about both lists depends on the query, which is the same
  by_cases hboth : (q.attributes.isSome && q.excludedAttributes.isSome) = true
  · simp only [hboth, if_true, Issues.hasErrors_addError]
    exact .error (h.addError _ _ _)
  · simp only [hboth, if_false, herrors, Bool.false_eq_true]
    split
    · exact .error h
    · exact .ok q

/-- Unknown parameters are passed over, and the order of the others does not matter. -/
theorem parse_perm (ctx : QueryContext) {params params' unknown : List (String × String)}
    (hunrepeated : Parameter.Unrepeated params)
    (hunknown : ∀ param ∈ unknown, ¬Parameter.Known param.1)
    (hperm : params'.Perm (params ++ unknown)) :
    SameAnswer (parse ctx params) (parse ctx params') := by
  -- no unknown parameter is given
  have hnone : Parameter.given unknown = [] := by
    refine List.filterMap_eq_nil_iff.mpr fun param hparam => ?_
    rw [Parameter.ofName?_eq_none_iff.mpr (hunknown param hparam), Option.map_none]
  have hgiven : (Parameter.given params).Perm (Parameter.given params') := by
    have hperm' : (Parameter.given params').Perm (Parameter.given (params ++ unknown)) :=
      hperm.filterMap _
    have happend : Parameter.given (params ++ unknown) =
        Parameter.given params ++ Parameter.given unknown := List.filterMap_append
    rw [happend, hnone, List.append_nil] at hperm'
    exact hperm'.symm
  have hnodup := hunrepeated.nodup
  rw [parse_eq_conclude, parse_eq_conclude, ← takenFrom_perm hgiven hnodup]
  exact sameAnswer_conclude _ (foundIn_perm hgiven hnodup) (hasErrors_foundIn_perm hgiven)

/-! ## What is accepted -/

/-- An allowed query stays allowed through all changes. -/
theorem Allowed.takenFrom (h : q.Allowed ctx.config) (gs : List (Parameter × String)) :
    (takenFrom ctx gs q).Allowed ctx.config := by
  induction gs generalizing q with
  | nil => exact h
  | cons g gs ih => exact ih ((changes_change ctx g.1 g.2).allowed h)

/-- What is concluded is the query itself, and it does not both ask for attributes and exclude
    some. -/
theorem of_conclude_eq_ok {q q' : Query} {x : Issues} (h : conclude q x = .ok q') :
    q' = q ∧ ¬(q.attributes.isSome = true ∧ q.excludedAttributes.isSome = true) := by
  unfold conclude at h
  by_cases hboth : (q.attributes.isSome && q.excludedAttributes.isSome) = true
  · simp [hboth] at h
  · simp only [hboth, if_false, Bool.false_eq_true] at h
    split at h
    · nomatch h
    · exact ⟨(Except.ok.inj h).symm, by simpa using hboth⟩

/-- The order of parameters does not matter, nor do unknown parameters, if no parameter is given
    twice.  And what is accepted, repeated parameters or not, keeps to the bounds and to what the
    service supports, and does not both ask for attributes and exclude some. -/
theorem parse_order_independent (ctx : QueryContext) :
    (∀ params params' unknown : List (String × String), Parameter.Unrepeated params →
        (∀ param ∈ unknown, ¬Parameter.Known param.1) → params'.Perm (params ++ unknown) →
        SameAnswer (parse ctx params) (parse ctx params')) ∧
      ∀ (params : List (String × String)) (q : Query), parse ctx params = .ok q →
        1 ≤ q.startIndex ∧
          (∀ n ∈ q.count, n ≤ ctx.config.filter.maxResults) ∧
          ¬(q.attributes.isSome = true ∧ q.excludedAttributes.isSome = true) ∧
          (ctx.config.filter.supported = false → q.filter = none) ∧
          (ctx.config.sort.supported = false → q.sortBy = none) := by
  refine ⟨fun params params' unknown => parse_perm ctx, fun params q h => ?_⟩
  rw [parse_eq_conclude] at h
  obtain ⟨rfl, hlists⟩ := of_conclude_eq_ok h
  have hallowed := (allowed_default ctx.config).takenFrom (Parameter.given params)
  exact ⟨hallowed.startIndex, hallowed.count, hlists, hallowed.filter, hallowed.sortBy⟩

/-- A service that returns fifty results at most, and does not sort. -/
def unsortedContext : QueryContext where
  catalog := .empty
  operators := .empty
  config := { filter := { maxResults := 50 }, sort := { supported := false } }

/-- Parameters with two mistakes. -/
def mistakenParams : List (String × String) := [("count", "ten"), ("sortBy", "userName")]

/-- The same the other way round, with a parameter that is unknown. -/
def strayParams : List (String × String) :=
  [("sortBy", "userName"), ("page", "2"), ("count", "ten")]

/-- The mistakes are found in another order, and are the same; and the number of results that are
    wanted is cut to fifty. -/
theorem parse_order_independent_mistaken :
    Parameter.Unrepeated mistakenParams ∧ ¬Parameter.Known "page" ∧
      strayParams.Perm (mistakenParams ++ [("page", "2")]) ∧
      (∃ x y, parse unsortedContext mistakenParams = .error x ∧
        parse unsortedContext strayParams = .error y ∧ x ≠ y ∧ x.SameEverywhere y) ∧
      ∃ q, parse unsortedContext [("COUNT", "70"), ("startIndex", "0")] = .ok q ∧
        1 ≤ q.startIndex ∧ q.count = some 50 ∧ ∀ n ∈ q.count, n ≤ 50 := by
  have hunrepeated : Parameter.Unrepeated mistakenParams := by
    unfold Parameter.Unrepeated
    decide +kernel
  have hunknown : ¬Parameter.Known "page" := by decide +kernel
  have hperm : strayParams.Perm (mistakenParams ++ [("page", "2")]) := by decide +kernel
  obtain ⟨hsame, hbounds⟩ := parse_order_independent unsortedContext
  have hanswer := hsame mistakenParams strayParams [("page", "2")] hunrepeated
    (by simpa using hunknown) hperm
  refine ⟨hunrepeated, hunknown, hperm, ?_, ?_⟩
  · -- both are refused, so the answers are the same only by their issues
    have hmistaken : parse unsortedContext mistakenParams =
        .error (foundIn unsortedContext (Parameter.given mistakenParams) .empty) := rfl
    have hstray : parse unsortedContext strayParams =
        .error (foundIn unsortedContext (Parameter.given strayParams) .empty) := rfl
    rw [hmistaken, hstray] at hanswer
    cases hanswer with
    | error h => exact ⟨_, _, hmistaken, hstray, by decide +kernel, h⟩
  · have hread : parse unsortedContext [("COUNT", "70"), ("startIndex", "0")] =
        .ok { count := some 50 } := rfl
    obtain ⟨hfirst, hmost, -⟩ := hbounds _ _ hread
    exact ⟨_, hread, hfirst, rfl, hmost⟩

end Query

end Scim
