import AttributeFilter.Proofs.Filter.Description
import AttributeFilter.Proofs.Filter.Extraction
import AttributeFilter.Proofs.Parameter.RoundTrip
import AttributeFilter.Proofs.Query.Following

/-!
# Parameters that a filter accepts

A filter describes the parameters that it accepts, and it makes something of the parameters that it
is given. Both look for the attribute that a property leads to, and differ in what stops them. For a
parameter that is sent alone they agree: it has an effect if its property is advertised.

## Main definitions

* `QueryText.SendsOnly`: a query text of one pair.
* `Filter.valuePair`, `Filter.orderPair`: the pairs that give a property a value, and that order by
  it.
* `Filter.AddsTest`, `Filter.AddsClause`: what a filter adds to a query for a parameter.

## Main results

* `QueryText.sendsOnly_single`: every pair can be sent alone.
* `Filter.addsTest_iff`, `Filter.addsClause_iff`: a parameter with an effect has it if the filter
  handles the values of the attribute.
* `Filter.describe_agrees`: a parameter that is sent alone has its effect if it is advertised.
-/

namespace AttributeFilter

namespace QueryText

variable {mode : KeyMode} {name text : String} {pair : Pair}

/-- The query text sends the pair and no other, in whatever way its signs are escaped. -/
def SendsOnly (text : String) (pair : Pair) : Prop :=
  pairs .preserved text = [pair]

instance (text : String) (pair : Pair) : Decidable (SendsOnly text pair) :=
  inferInstanceAs (Decidable (_ = _))

/-- The query text of a pair, with every byte of it escaped. -/
def single (pair : Pair) : String :=
  String.ofList (renderPair pair)

/-- The query text of a pair sends it and no other; without a base name it sends none. -/
theorem pairs_single (hplain : '[' ∉ pair.base.toList)
    (hbracketed : ∀ name, .key name ∈ pair.segments → Parameter.IsBracketName name)
    (hshallow : pair.segments.length ≤ Key.maxNesting) :
    pairs .preserved (single pair) = if pair.base = "" then [] else [pair] := by
  have hpieces := pieces_intercalate (List.cons_ne_nil pair [])
  rw [List.map_singleton, List.intercalate_singleton] at hpieces
  have hread : pair? .preserved (renderPair pair) = if pair.base = "" then none else some pair := by
    rw [pair?_renderPair_eq hplain hbracketed hshallow, rename_preserved, String.ofList_toList]
  rw [pairs, single, hpieces, List.filterMap_cons, hread]
  by_cases hname : pair.base = ""
  · rw [if_pos hname, if_pos hname]
    rfl
  · rw [if_neg hname, if_neg hname]
    rfl

/-- Every pair that writes to a possible place can be sent alone. -/
theorem sendsOnly_single (h : pair.WellFormed .preserved) (hplain : '[' ∉ pair.base.toList) :
    SendsOnly (single pair) pair := by
  rw [SendsOnly, pairs_single hplain h.bracketed h.shallow, if_neg h.named.1]

theorem arrivalName_of_isBaseName (h : IsBaseName .flattened name) : arrivalName name = name := by
  rw [← String.ofList_toList (s := name), ← ofList_rename_flattened, rename_of_isBaseName h]

/-- A pair that is sent alone writes the only parameter, if the mode keeps its name. -/
theorem parse_of_sendsOnly (h : SendsOnly text pair)
    (hkept : mode = .preserved ∨ arrivalName pair.base = pair.base) :
    parse mode text = [(pair.base, Parameter.assign pair.text pair.segments .blank)] := by
  have hpairs : pairs mode text = [pair] := by
    cases mode with
    | preserved => exact h
    | flattened =>
      have hname : arrivalName pair.base = pair.base := hkept.resolve_left (by decide)
      rw [pairs_flattened, h, List.map_singleton, Pair.arrived, hname]
  rw [parse, hpairs]
  rfl

end QueryText

namespace Filter

open QueryText (Pair SendsOnly arrivalName single)

variable {filter : Filter} {registry : Registry} {resource property text : String}
  {family : Family} {description : Description} {parameter : Parameter} {request : Request}

def valuePair (property value : String) : Pair where
  base := property
  segments := []
  text := value

def orderPair (property token : String) : Pair where
  base := orderParameter
  segments := [.key property]
  text := token

/-- For the request the filter ends without error, and to the conditions of the query it adds one
that is a single test at the end of the path. -/
def AddsTest (filter : Filter) (registry : Registry) (resource : String) (request : Request)
    (query : Query) (path : AttributePath) : Prop :=
  ∃ next test, query.apply registry filter (some request) resource = (next, none) ∧
    next.conditions = query.conditions ++ [.all [Test.toPredicate path.toTarget test]]

/-- For the request the filter ends without error, and to the order of the query it adds one clause,
by the end of the path. -/
def AddsClause (filter : Filter) (registry : Registry) (resource : String) (request : Request)
    (query : Query) (path : AttributePath) (direction : Direction) : Prop :=
  ∃ next, query.apply registry filter (some request) resource = (next, none) ∧
    next.ordering = query.ordering ++ [{ target := path.toTarget, direction }]

theorem wellFormed_valuePair (hne : property ≠ "") (value : String) :
    (valuePair property value).WellFormed .preserved where
  named := ⟨hne, nofun⟩
  bracketed := fun _ hname => absurd hname List.not_mem_nil
  shallow := Nat.zero_le _
  plain := fun _ => rfl

theorem open_notMem_orderParameter : '[' ∉ orderParameter.toList := by
  decide

theorem wellFormed_orderPair (hne : property ≠ "") (hclose : ']' ∉ property.toList)
    (token : String) : (orderPair property token).WellFormed .preserved where
  named := ⟨show orderParameter ≠ "" by decide, nofun⟩
  bracketed := by
    intro name hname
    cases List.mem_singleton.1 hname
    exact ⟨hne, hclose⟩
  shallow := show 1 ≤ Key.maxNesting by decide
  plain := fun hopen => absurd hopen open_notMem_orderParameter

/-! ### One parameter -/

theorem planFor_singleton_of_step {step : Step}
    (h : filter.step? registry resource property parameter = .ok (some step)) :
    filter.planFor registry resource [(property, parameter)] =
      { steps := [step], ending := .concluded } := by
  rw [planFor_singleton, h]
  rfl

theorem plan_of_parametersOf? {parameters : Parameters}
    (h : filter.parametersOf? request = some parameters) :
    filter.plan registry (some request) resource =
      filter.planFor registry resource parameters := by
  rw [plan, Option.bind_some, h]

section Alone

variable {query next : Query}
  (hparameters : filter.parametersOf? request = some [(property, parameter)])
  (hfamily : registry.resolve filter.family resource = .ok family)

include hparameters hfamily

/-- A filter that ends without error on one parameter leaves the order of a query alone and adds no
test, or it handles the values of the attribute that the property leads to. -/
theorem apply_alone (happly : query.apply registry filter (some request) resource = (next, none)) :
    next = query.attach .always ∨
      ∃ path, registry.path family property = .ok path ∧
        filter.handles path.target.semantic = true := by
  obtain ⟨rfl, herror⟩ := Prod.mk.inj happly
  rw [plan_of_parametersOf? hparameters, planFor_singleton] at herror ⊢
  cases hstep : filter.step? registry resource property parameter with
  | error error =>
    rw [hstep] at herror
    cases herror
  | ok step? =>
    cases step? with
    | none => exact .inl (Query.follow_of_no_effect rfl rfl rfl query)
    | some step =>
      obtain ⟨-, ⟨family', hfamily', hpath⟩, hhandles, -⟩ := step?_eq_some_iff.1 hstep
      cases hfamily.symm.trans hfamily'
      exact .inr ⟨step.path, hpath, hhandles⟩

variable (hcontains : filter.properties.contains property = true)

include hcontains

/-- On one parameter whose property leads to an attribute of values that it handles, a filter takes
the one step. -/
theorem plan_alone {effect : Effect} (heffect : filter.effect property parameter = .ok effect)
    {path : AttributePath} (hpath : registry.path family property = .ok path)
    (hhandles : filter.handles path.target.semantic = true) :
    filter.plan registry (some request) resource =
      { steps := [{ path, effect }], ending := .concluded } := by
  rw [plan_of_parametersOf? hparameters]
  exact planFor_singleton_of_step
    (step?_eq_some_iff.2 ⟨hcontains, ⟨family, hfamily, hpath⟩, hhandles, heffect⟩)

/-- A parameter that amounts to a test adds it at the attribute that its property leads to, if the
filter handles the values there. -/
theorem addsTest_alone {test : Test} (heffect : filter.effect property parameter = .ok (.test test))
    {path : AttributePath} (hpath : registry.path family property = .ok path)
    (hhandles : filter.handles path.target.semantic = true) (query : Query) :
    filter.AddsTest registry resource request query path := by
  refine ⟨query.follow (filter.plan registry (some request) resource), test, ?_⟩
  rw [Query.apply, plan_alone hparameters hfamily hcontains heffect hpath hhandles]
  exact ⟨rfl, rfl⟩

/-- A parameter without effect leaves a query as it is, but for a condition that always holds. -/
theorem apply_alone_of_nothing (heffect : filter.effect property parameter = .ok .nothing)
    {path : AttributePath} (hpath : registry.path family property = .ok path)
    (hhandles : filter.handles path.target.semantic = true) (query : Query) :
    query.apply registry filter (some request) resource = (query.attach .always, none) := by
  rw [Query.apply, plan_alone hparameters hfamily hcontains heffect hpath hhandles,
    Query.follow_of_no_effect rfl rfl rfl]
  rfl

/-- A parameter that amounts to a test adds it if the filter handles the values of the attribute that
its property leads to. -/
theorem addsTest_iff {test : Test} (heffect : filter.effect property parameter = .ok (.test test))
    (query : Query) :
    (∃ path, registry.path family property = .ok path ∧
        filter.AddsTest registry resource request query path) ↔
      ∃ path, registry.path family property = .ok path ∧
        filter.handles path.target.semantic = true := by
  constructor
  · rintro ⟨path, -, next, test', happly, hconditions⟩
    refine (apply_alone hparameters hfamily happly).resolve_left ?_
    rintro rfl
    have hlast := List.append_cancel_left hconditions
    cases hlast
  · rintro ⟨path, hpath, hhandles⟩
    exact ⟨path, hpath, addsTest_alone hparameters hfamily hcontains heffect hpath hhandles query⟩

/-- A parameter that amounts to an order adds its clause if the filter handles the values of the
attribute that its property leads to. -/
theorem addsClause_iff {direction : Direction}
    (heffect : filter.effect property parameter = .ok (.order direction)) (query : Query) :
    (∃ path, registry.path family property = .ok path ∧
        filter.AddsClause registry resource request query path direction) ↔
      ∃ path, registry.path family property = .ok path ∧
        filter.handles path.target.semantic = true := by
  constructor
  · rintro ⟨path, -, next, happly, hordering⟩
    refine (apply_alone hparameters hfamily happly).resolve_left ?_
    rintro rfl
    exact absurd (List.self_eq_append_right.1 hordering) (List.cons_ne_nil _ _)
  · rintro ⟨path, hpath, hhandles⟩
    refine ⟨path, hpath, query.follow (filter.plan registry (some request) resource), ?_⟩
    rw [Query.apply, plan_alone hparameters hfamily hcontains heffect hpath hhandles]
    exact ⟨rfl, rfl⟩

end Alone

/-! ### Parameters sent alone -/

theorem contains_of_described
    (hlisted : property ∈ Keyed.keys (filter.describedProperties family)) :
    filter.properties.contains property = true := by
  rw [describedProperties] at hlisted
  split at hlisted
  · next hall =>
    rw [hall]
    rfl
  · next hall =>
    rw [hall]
    exact (Keyed.contains_iff _ _).2 hlisted

theorem mem_entries_of_described (hall : filter.properties ≠ .all)
    (hlisted : property ∈ Keyed.keys (filter.describedProperties family)) :
    property ∈ Keyed.keys filter.properties.entries := by
  rw [describedProperties] at hlisted
  split at hlisted
  · next h => exact absurd h hall
  · next h =>
    rw [h]
    exact hlisted

/-- A pair that is sent alone under a name without blanks is all that a filter finds, if the filter
lists the name or there is no dot in it. -/
theorem extract_of_sendsOnly {pair : Pair} (hne : pair.base ≠ "") (hblank : ' ' ∉ pair.base.toList)
    (hdot : '.' ∈ pair.base.toList → pair.base ∈ Keyed.keys filter.properties.entries)
    (h : SendsOnly text pair) :
    filter.extract (.ofQueryText text) =
      [(pair.base, Parameter.assign pair.text pair.segments .blank)] := by
  have hkept : filter.modeFor text = .preserved ∨ arrivalName pair.base = pair.base := by
    by_cases hdotted : '.' ∈ pair.base.toList
    · refine .inl (modeFor_eq_preserved_iff.2
        ⟨pair.base, hdot hdotted, isDotted_iff.2 hdotted, hblank, ?_⟩)
      refine QueryText.mem_keys_parse_flattened_iff.2 ⟨pair.base, ?_, rfl⟩
      rw [QueryText.parse_of_sendsOnly h (.inl rfl)]
      exact List.mem_singleton_self pair.base
    · exact .inr (QueryText.arrivalName_of_isBaseName ⟨hne, fun _ => ⟨hdotted, hblank⟩⟩)
  rw [extract_ofQueryText]
  exact QueryText.parse_of_sendsOnly h hkept

theorem extract_of_sendsOnly_valuePair {value : String} (hne : property ≠ "")
    (hblank : ' ' ∉ property.toList)
    (hdot : '.' ∈ property.toList → property ∈ Keyed.keys filter.properties.entries)
    (h : SendsOnly text (valuePair property value)) :
    filter.extract (.ofQueryText text) = [(property, .scalar value)] :=
  extract_of_sendsOnly hne hblank hdot h

/-- An order that is sent alone is all that a filter finds. -/
theorem extract_of_sendsOnly_orderPair {token : String}
    (h : SendsOnly text (orderPair property token)) :
    filter.extract (.ofQueryText text) = [(orderParameter, .map [(property, .scalar token)])] := by
  have hkept : arrivalName orderParameter = orderParameter :=
    QueryText.arrivalName_of_isBaseName (by decide)
  rw [extract_ofQueryText]
  exact QueryText.parse_of_sendsOnly h (.inr hkept)

theorem effect_scalar_of_ne_order (hkind : filter.kind ≠ .order) (property value : String) :
    ∃ test, filter.effect property (.scalar value) = .ok (.test test) :=
  exists_test_of_not_drops hkind id

/-- The name of a direction orders by it, whatever the default. -/
theorem effect_scalar_of_order (hkind : filter.kind = .order) {token : String}
    {direction : Direction} (htoken : Direction.ofText? token = some direction)
    (property : String) :
    filter.effect property (.scalar token) = .ok (.order direction) := by
  have hempty : token ≠ "" := by
    rintro rfl
    cases htoken
  have hzero : token ≠ "0" := by
    rintro rfl
    cases htoken
  simp [effect, hkind, Effect.ofOrder, hempty, hzero, htoken]

/-- **What is accepted is what is advertised.** For a resource that a filter describes itself for,
take a property that it lists, or an attribute if it handles all. A value that is sent alone under the
name of the property gives a query one more condition, a single test at the end of the path of the
property, exactly if the description advertises the name; the name must have no blank, and no dot
if it is not listed. An order by the property that is sent alone gives the query of an order filter one
more clause, by the end of the path, exactly if the description advertises the order. Both the value and
the order can be sent. -/
theorem describe_agrees (hdescribe : filter.describe registry resource = .ok description)
    (hfamily : registry.resolve filter.family resource = .ok family)
    (hlisted : property ∈ Keyed.keys (filter.describedProperties family))
    (hne : property ≠ "") (hplain : '[' ∉ property.toList ∧ ']' ∉ property.toList) :
    (filter.kind ≠ .order → ' ' ∉ property.toList →
        (filter.properties = .all → '.' ∉ property.toList) → ∀ value,
      SendsOnly (single (valuePair property value)) (valuePair property value) ∧
        ∀ text, SendsOnly text (valuePair property value) → ∀ query,
          (∃ path, registry.path family property = .ok path ∧
              filter.AddsTest registry resource (.ofQueryText text) query path) ↔
            Description.Advertises description property) ∧
    (filter.kind = .order → ∀ token direction, Direction.ofText? token = some direction →
      SendsOnly (single (orderPair property token)) (orderPair property token) ∧
        ∀ text, SendsOnly text (orderPair property token) → ∀ query,
          (∃ path, registry.path family property = .ok path ∧
              filter.AddsClause registry resource (.ofQueryText text) query path direction) ↔
            Description.Advertises description (orderName property)) := by
  have hadvertises := advertises_iff hdescribe hfamily hlisted hplain.1
  have hcontains := contains_of_described hlisted
  constructor
  · intro hkind hblank hdot value
    rw [toldName_of_ne_order hkind] at hadvertises
    obtain ⟨test, heffect⟩ := effect_scalar_of_ne_order hkind property value
    refine ⟨QueryText.sendsOnly_single (wellFormed_valuePair hne value) hplain.1,
      fun text htext query => ?_⟩
    have hentries : '.' ∈ property.toList → property ∈ Keyed.keys filter.properties.entries :=
      fun hmem => mem_entries_of_described (fun hall => hdot hall hmem) hlisted
    have hparameters : filter.parametersOf? (.ofQueryText text) =
        some [(property, .scalar value)] := by
      rw [parametersOf?_of_ne_order hkind, extract_of_sendsOnly_valuePair hne hblank hentries htext]
    rw [hadvertises]
    exact addsTest_iff hparameters hfamily hcontains heffect query
  · intro hkind token direction htoken
    rw [toldName_of_order hkind] at hadvertises
    have heffect := effect_scalar_of_order hkind htoken property
    refine ⟨QueryText.sendsOnly_single (wellFormed_orderPair hne hplain.2 token)
      open_notMem_orderParameter, fun text htext query => ?_⟩
    have hparameters : filter.parametersOf? (.ofQueryText text) =
        some [(property, .scalar token)] := by
      rw [parametersOf?, hkind, extract_of_sendsOnly_orderPair htext]
      rfl
    rw [hadvertises]
    exact addsClause_iff hparameters hfamily hcontains heffect query

/-- The name of the maker is advertised by the search, and a search by it has its effect; so is the
order by it, and so has that. -/
theorem maker_name_accepted :
    (∃ description family,
      Wardrobe.style.describe Wardrobe.families Wardrobe.shirtClass = .ok description ∧
      Wardrobe.families.resolve Wardrobe.style.family Wardrobe.shirtClass = .ok family ∧
      "maker.name" ∈ Keyed.keys (Wardrobe.style.describedProperties family) ∧
      Description.Advertises description "maker.name" ∧
      SendsOnly "maker.name=Acme" (valuePair "maker.name" "Acme") ∧
      ∀ query, ∃ path, Wardrobe.families.path family "maker.name" = .ok path ∧
        Wardrobe.style.AddsTest Wardrobe.families Wardrobe.shirtClass
          (.ofQueryText "maker.name=Acme") query path) ∧
    ∃ description family,
      Wardrobe.arrangement.describe Wardrobe.families Wardrobe.shirtClass = .ok description ∧
      Wardrobe.families.resolve Wardrobe.arrangement.family Wardrobe.shirtClass = .ok family ∧
      "maker.name" ∈ Keyed.keys (Wardrobe.arrangement.describedProperties family) ∧
      Description.Advertises description (orderName "maker.name") ∧
      SendsOnly "order[maker.name]=desc" (orderPair "maker.name" "desc") ∧
      ∀ query, ∃ path, Wardrobe.families.path family "maker.name" = .ok path ∧
        Wardrobe.arrangement.AddsClause Wardrobe.families Wardrobe.shirtClass
          (.ofQueryText "order[maker.name]=desc") query path .descending := by
  constructor
  · obtain ⟨description, family, hdescribe, hfamily, hadvertised⟩ :=
      exists_description_advertises Wardrobe.style Wardrobe.families Wardrobe.shirtClass
        "maker.name" (show _ = some SemanticType.string by decide +kernel) (by decide)
    have hlisted : "maker.name" ∈ Keyed.keys (Wardrobe.style.describedProperties family) := by
      change "maker.name" ∈ Keyed.keys Wardrobe.style.properties.entries
      decide
    have hsends : SendsOnly "maker.name=Acme" (valuePair "maker.name" "Acme") := by
      decide +kernel
    have hagrees := (describe_agrees hdescribe hfamily hlisted (by decide) (by decide)).1
      (by decide) (by decide) nofun "Acme"
    exact ⟨description, family, hdescribe, hfamily, hlisted, hadvertised, hsends,
      fun query => (hagrees.2 _ hsends query).2 hadvertised⟩
  · obtain ⟨description, family, hdescribe, hfamily, hadvertised⟩ :=
      exists_description_advertises Wardrobe.arrangement Wardrobe.families Wardrobe.shirtClass
        (orderName "maker.name") (show _ = some SemanticType.string by decide +kernel) (by decide)
    have hlisted :
        "maker.name" ∈ Keyed.keys (Wardrobe.arrangement.describedProperties family) := by
      change "maker.name" ∈ Keyed.keys Wardrobe.arrangement.properties.entries
      decide
    have hsends : SendsOnly "order[maker.name]=desc" (orderPair "maker.name" "desc") := by
      decide +kernel
    have hagrees := (describe_agrees hdescribe hfamily hlisted (by decide) (by decide)).2
      (by decide) "desc" .descending (by decide)
    exact ⟨description, family, hdescribe, hfamily, hlisted, hadvertised, hsends,
      fun query => (hagrees.2 _ hsends query).2 hadvertised⟩

end Filter

end AttributeFilter
