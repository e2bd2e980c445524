import AttributeFilter.Proofs.Filter.Failure
import AttributeFilter.Sample.Wardrobe
import Mathlib.Data.List.Forall2

/-!
# What a filter contributes

A filter that ends without error adds one condition to a query, and an order filter adds clauses as
well. Both are read here off the parameters, entry by entry and in their order: which condition a
parameter asks for, which clause an entry of the order map asks for, and that everything else is
passed over. Nothing is lost, doubled or put elsewhere by the loop that all kinds of filters share.

## Main definitions

* `Collects`: what a relation gives for the elements of a list, in their order.
* `Filter.TestsFor`: the test that a value stands for under the kind of a filter.
* `Filter.AsksCondition`, `Filter.AsksClause`: the condition or the clause that a parameter asks
  for.
* `Filter.Contributes`: a query after a filter that ends without error.

## Main results

* `Direction.ofText?_eq_some_iff`: which texts name a direction.
* `Filter.collects_planFor`: the steps of a plan are collected from its parameters.
* `Filter.contributes_of_apply_eq_ok`: what a filter contributes.
-/

namespace AttributeFilter

/-! ### Collecting -/

/-- The results that a relation gives for inputs, in the order of the inputs. Inputs without a
result are passed over. -/
inductive Collects {α β : Type} (gives : α → β → Prop) : List α → List β → Prop
  | nil : Collects gives [] []
  | given {input : α} {result : β} {inputs : List α} {results : List β} (h : gives input result)
      (rest : Collects gives inputs results) : Collects gives (input :: inputs) (result :: results)
  | passed {input : α} {inputs : List α} {results : List β} (h : ∀ result, ¬ gives input result)
      (rest : Collects gives inputs results) : Collects gives (input :: inputs) results

/-! ### Names of directions -/

namespace Direction

/-- A text names a direction: letter by letter it is the name, or the name in small letters. -/
def Named (direction : Direction) (token : String) : Prop :=
  List.Forall₂ (fun c letter => c = letter ∨ c = letter.toLower) token.toList direction.name.toList

/-- The capital of a character is a given one if it is that or its small letter. -/
theorem toUpper_eq_iff {c letter : Char} (h : letter.isUpper = true) :
    c.toUpper = letter ↔ c = letter ∨ c = letter.toLower := by
  have h : 'A'.val.toNat ≤ letter.val.toNat ∧ letter.val.toNat ≤ 'Z'.val.toNat :=
    of_decide_eq_true h
  delta Char.toUpper Char.toLower
  simp only [Char.ext_iff, UInt32.ext_iff, ge_iff_le, UInt32.le_iff_toNat_le, dif_pos h]
  have hA : 'A'.val.toNat = 65 := rfl
  have hZ : 'Z'.val.toNat = 90 := rfl
  have ha : 'a'.val.toNat = 97 := rfl
  have hz : 'z'.val.toNat = 122 := rfl
  have hup : ('A'.val - 'a'.val).toNat = 2 ^ 32 - 32 := rfl
  have hdown : ('a'.val - 'A'.val).toNat = 32 := rfl
  split
  · simp only [UInt32.toNat_add, hup, hdown]
    omega
  · simp only [UInt32.toNat_add, hdown]
    omega

theorem map_toUpper_eq_iff {letters : List Char} (h : ∀ letter ∈ letters, letter.isUpper = true)
    (text : List Char) : text.map Char.toUpper = letters ↔
      List.Forall₂ (fun c letter => c = letter ∨ c = letter.toLower) text letters := by
  induction letters generalizing text with
  | nil => simp
  | cons letter rest ih =>
    obtain ⟨hletter, hrest⟩ := List.forall_mem_cons.1 h
    cases text with
    | nil => simp
    | cons c text =>
      rw [List.map_cons, List.cons.injEq, List.forall₂_cons, toUpper_eq_iff hletter, ih hrest]

theorem named_iff {direction : Direction} {token : String} :
    direction.Named token ↔ String.ofList (token.toList.map Char.toUpper) = direction.name := by
  have hupper : direction.name.toList.all Char.isUpper = true := by
    cases direction <;> rfl
  rw [Named, ← map_toUpper_eq_iff (List.all_eq_true.1 hupper), ← String.toList_inj,
    String.toList_ofList]

theorem ofText?_eq_some_iff {direction : Direction} {token : String} :
    ofText? token = some direction ↔ direction.Named token := by
  rw [named_iff, ofText?]
  have hne : ascending.name ≠ descending.name := by decide
  cases direction with
  | ascending => grind
  | descending => grind

end Direction

/-! ### Conditions and clauses -/

def Step.condition? (step : Step) : Option Predicate :=
  step.test?.map fun tested => tested.2.toPredicate tested.1.toTarget

theorem Query.conditionOf_eq_filterMap (plan : Plan) :
    conditionOf plan = .conjunction (plan.steps.filterMap Step.condition?) := by
  rw [conditionOf, Plan.tests, List.map_filterMap]
  rfl

namespace Filter

/-- The test that a value stands for under the kind of a filter. -/
inductive TestsFor (filter : Filter) (property : String) : Parameter → Test → Prop
  | flag {given : Parameter} (hkind : filter.kind = .boolean) :
      TestsFor filter property given (.equals (.bool given.flag))
  | number {raw : String} (hkind : filter.kind = .numeric) :
      TestsFor filter property (.scalar raw) (.equals (.text raw))
  | numbers {items : List Parameter} (hkind : filter.kind = .numeric) :
      TestsFor filter property (.list items) (.equals (.anyOf (Parameter.list items).scalars))
  | pattern {raw : String} {strategy : SearchStrategy} (hkind : filter.kind = .search)
      (hstrategy : filter.searchStrategy property = .ok strategy) :
      TestsFor filter property (.scalar raw) (.like (strategy.pattern raw))
  | texts {items : List Parameter} (hkind : filter.kind = .search)
      (hstrategy : filter.searchStrategy property = .ok .exact) :
      TestsFor filter property (.list items)
        (.equals (.anyOf ((Parameter.list items).scalars.map SearchStrategy.bare)))

/-- A parameter asks for a condition: its property is handled and leads to an attribute of a type
that the filter supports, other than the mixed one, and its value has a shape of use. The condition
puts the value to the test there. -/
inductive AsksCondition (filter : Filter) (registry : Registry) (resource : String) :
    String × Parameter → Predicate → Prop
  | intro {property : String} {given : Parameter} {path : AttributePath} {test : Test}
      (contains : filter.properties.contains property = true)
      (resolves : filter.Resolves registry resource property path)
      (uses : filter.Uses property given path) (tests : filter.TestsFor property given test) :
      AsksCondition filter registry resource (property, given) (test.toPredicate path.toTarget)

/-- The text that is to name the direction for a property: the empty text and `0` leave it to the
default of the property, if there is one. -/
def directionToken (filter : Filter) (property token : String) : String :=
  if token = "" ∨ token = "0" then (filter.properties.strategy? property).getD token else token

/-- An entry of the order map asks for a clause: its property is handled and leads to an attribute
of a type that the filter supports, other than the mixed one, and its value is a text that names a
direction, or leaves it to a default that does. -/
inductive AsksClause (filter : Filter) (registry : Registry) (resource : String) :
    String × Parameter → Clause → Prop
  | intro {property token : String} {path : AttributePath} {direction : Direction}
      (contains : filter.properties.contains property = true)
      (resolves : filter.Resolves registry resource property path)
      (supported : path.target.semantic ∈ filter.types) (definite : path.target.semantic ≠ .mixed)
      (named : direction.Named (filter.directionToken property token)) :
      AsksClause filter registry resource (property, .scalar token)
        { target := path.toTarget, direction }

/-- A query after a filter that ends without error. A filter on values leaves the order alone and
attaches one condition, the conjunction of what the parameters ask for. An order filter changes
nothing without an order map; with one it attaches a condition that always holds, and orders by what
the entries ask for. -/
structure Contributes (filter : Filter) (registry : Registry) (source : Request)
    (resource : String) (query next : Query) : Prop where
  family_eq : next.family = query.family
  ordering_of_ne_order : filter.kind ≠ .order → next.ordering = query.ordering
  conditions_of_ne_order : filter.kind ≠ .order → ∃ conditions,
    Collects (filter.AsksCondition registry resource) (filter.extract source) conditions ∧
      (conditions = [] → next.conditions = query.conditions ++ [.always]) ∧
      (conditions ≠ [] → next.conditions = query.conditions ++ [.all conditions])
  eq_of_no_map : filter.kind = .order →
    (∀ entries, Keyed.get? orderParameter (filter.extract source) ≠ some (.map entries)) →
      next = query
  conditions_of_map : filter.kind = .order → ∀ entries,
    Keyed.get? orderParameter (filter.extract source) = some (.map entries) →
      next.conditions = query.conditions ++ [.always]
  ordering_of_map : filter.kind = .order → ∀ entries,
    Keyed.get? orderParameter (filter.extract source) = some (.map entries) → ∃ clauses,
      Collects (filter.AsksClause registry resource) entries clauses ∧
        next.ordering = query.ordering ++ clauses

variable {filter : Filter} {registry : Registry} {resource property : String} {given : Parameter}

/-! ### One parameter -/

/-- A value of a shape of use stands for a test. -/
theorem exists_testsFor (hkind : filter.kind ≠ .order) (hkept : ¬ filter.Drops property given) :
    ∃ test, filter.TestsFor property given test := by
  cases hk : filter.kind with
  | order => exact absurd hk hkind
  | boolean => exact ⟨_, .flag hk⟩
  | numeric =>
    cases given with
    | scalar raw => exact ⟨_, .number hk⟩
    | list items => exact ⟨_, .numbers hk⟩
    | map entries => exact absurd trivial hkept
  | search =>
    cases given with
    | scalar raw =>
      obtain ⟨strategy, hstrategy⟩ := searchStrategy_isOk hk property
      exact ⟨_, .pattern hk hstrategy⟩
    | list items => exact ⟨_, .texts hk (Classical.byContradiction fun hne => hkept ⟨hk, hne⟩)⟩
    | map entries => exact absurd trivial hkept

theorem effect_of_testsFor (hkept : ¬ filter.Drops property given) {test : Test}
    (h : filter.TestsFor property given test) :
    filter.effect property given = .ok (.test test) := by
  cases h with
  | flag hk =>
    cases given with
    | map entries => exact absurd trivial hkept
    | scalar raw | list items =>
      simp only [effect, hk]
      rfl
  | number hk => simp [effect, hk, Comparand.ofParameter]
  | numbers hk => simp [effect, hk, Comparand.ofParameter]
  | pattern hk hstrategy | texts hk hstrategy =>
    simp only [effect, hk, hstrategy]
    rfl

/-- The effect of a value of a shape of use is the test that it stands for. -/
theorem effect_eq_test_iff (hkind : filter.kind ≠ .order) (hkept : ¬ filter.Drops property given)
    {test : Test} :
    filter.effect property given = .ok (.test test) ↔ filter.TestsFor property given test := by
  refine ⟨fun h => ?_, effect_of_testsFor hkept⟩
  obtain ⟨other, hother⟩ := exists_testsFor hkind hkept
  cases h.symm.trans (effect_of_testsFor hkept hother)
  exact hother

/-- A parameter asks for the condition of its step. -/
theorem asksCondition_iff (hkind : filter.kind ≠ .order) {found : Option Step}
    (h : filter.step? registry resource property given = .ok found) (condition : Predicate) :
    filter.AsksCondition registry resource (property, given) condition ↔
      found.bind Step.condition? = some condition := by
  constructor
  · rintro ⟨contains, resolves, uses, tests⟩
    have hstep : filter.step? registry resource property given = .ok (some ⟨_, .test _⟩) :=
      step?_eq_some_iff.2 ⟨contains, resolves, (uses_iff_handles uses.kept).1 uses,
        effect_of_testsFor uses.kept tests⟩
    cases h.symm.trans hstep
    rfl
  · intro hcondition
    obtain ⟨⟨path, effect⟩, rfl, hcondition⟩ := Option.bind_eq_some_iff.1 hcondition
    obtain ⟨contains, resolves, hhandles, heffect⟩ := step?_eq_some_iff.1 h
    cases effect with
    | order direction => cases hcondition
    | nothing => cases hcondition
    | test test =>
      cases hcondition
      have hkept : ¬ filter.Drops property given := fun hd => by cases effect_of_drops hd heffect
      exact .intro contains resolves ((uses_iff_handles hkept).2 hhandles)
        ((effect_eq_test_iff hkind hkept).1 heffect)

theorem directionFor?_eq_some_iff {direction : Direction} :
    filter.directionFor? property given = some direction ↔
      ∃ token, given = .scalar token ∧ direction.Named (filter.directionToken property token) := by
  cases given with
  | scalar token =>
    rw [directionFor?, Direction.ofText?_eq_some_iff]
    constructor
    · exact fun h => ⟨token, rfl, h⟩
    · rintro ⟨_, heq, h⟩
      cases heq
      exact h
  | list items | map entries => simp [directionFor?]

/-- An entry of the order map asks for the clause that it produces. -/
theorem asksClause_iff_clauseOf? {entry : String × Parameter} {clause : Clause} :
    filter.AsksClause registry resource entry clause ↔
      filter.clauseOf? registry resource entry = some clause := by
  obtain ⟨property, given⟩ := entry
  simp only [clauseOf?, Option.bind_eq_some_iff, Option.map_eq_some_iff, handledPath?_eq_some_iff,
    handles_iff, directionFor?_eq_some_iff]
  constructor
  · rintro ⟨contains, resolves, supported, definite, named⟩
    exact ⟨_, ⟨contains, resolves, supported, definite⟩, _, ⟨_, rfl, named⟩, rfl⟩
  · rintro ⟨path, ⟨contains, resolves, supported, definite⟩, _, ⟨token, rfl, named⟩, rfl⟩
    exact .intro contains resolves supported definite named

/-- An entry of the order map asks for the clause of its step. -/
theorem asksClause_iff (hkind : filter.kind = .order) {found : Option Step}
    (h : filter.step? registry resource property given = .ok found) (clause : Clause) :
    filter.AsksClause registry resource (property, given) clause ↔
      found.bind Step.clause? = some clause := by
  rw [asksClause_iff_clauseOf?, clauseOf?_eq_bind hkind h]

/-! ### All parameters -/

/-- What parameters ask for one by one is collected by the steps of a plan that looks at all of
them. -/
theorem collects_planFor {β : Type} {gives : String × Parameter → β → Prop} {pick : Step → Option β}
    (hgives : ∀ {property given found},
      filter.step? registry resource property given = .ok found →
        ∀ result, gives (property, given) result ↔ found.bind pick = some result)
    {parameters : Parameters}
    (hended : (filter.planFor registry resource parameters).ending = .concluded) :
    Collects gives parameters
      ((filter.planFor registry resource parameters).steps.filterMap pick) := by
  induction parameters with
  | nil => exact .nil
  | cons entry rest ih =>
    obtain ⟨property, given⟩ := entry
    rw [planFor_cons] at hended ⊢
    cases hstep : filter.step? registry resource property given with
    | error error =>
      rw [hstep] at hended
      cases hended
    | ok found =>
      rw [hstep] at hended
      have hgiven := hgives hstep
      -- an entry is passed over if it has no step, and if nothing is picked from its step
      cases found with
      | none => exact .passed (fun result => by simp [hgiven]) (ih hended)
      | some step =>
        simp only [Plan.cons, List.filterMap_cons]
        cases hpick : pick step with
        | none => exact .passed (fun result => by simp [hgiven, hpick]) (ih hended)
        | some result => exact .given ((hgiven result).2 hpick) (ih hended)

theorem tests_planFor (hkind : filter.kind = .order) (parameters : Parameters) :
    (filter.planFor registry resource parameters).tests = [] := by
  rw [Plan.tests, List.filterMap_eq_nil_iff]
  intro step hstep
  obtain ⟨entry, -, hentry⟩ := mem_steps_planFor hstep
  have heffect := (step?_eq_some_iff.1 hentry).2.2.2
  rw [effect_of_order hkind, Except.ok.injEq] at heffect
  rw [Step.test?, ← heffect]
  cases filter.directionFor? entry.1 entry.2 <;> rfl

theorem parametersOf?_of_map (hkind : filter.kind = .order) {source : Request}
    {entries : Parameters}
    (hmap : Keyed.get? orderParameter (filter.extract source) = some (.map entries)) :
    filter.parametersOf? source = some entries := by
  simp only [parametersOf?, hkind, hmap]

/-- Without an order map an order filter has nothing to look at. -/
theorem parametersOf?_of_no_map (hkind : filter.kind = .order) {source : Request}
    (hmap : ∀ entries,
      Keyed.get? orderParameter (filter.extract source) ≠ some (.map entries)) :
    filter.parametersOf? source = none := by
  simp only [parametersOf?, hkind]

/-! ### A filter that ends without error -/

variable {source : Request} {query next : Query}

theorem conditions_of_apply (hkind : filter.kind ≠ .order)
    (h : query.apply registry filter (some source) resource = (next, none)) :
    ∃ conditions,
      Collects (filter.AsksCondition registry resource) (filter.extract source) conditions ∧
        next.conditions = query.conditions ++ [.conjunction conditions] := by
  obtain ⟨rfl, herror⟩ := Prod.mk.inj h
  rw [plan_of_ne_order hkind] at herror ⊢
  have hended := concluded_of_error?_eq_none herror
  refine ⟨_, collects_planFor (asksCondition_iff hkind) hended, ?_⟩
  rw [Query.conditions_follow, Query.conditionsOf, hended, Query.conditionOf_eq_filterMap]

/-- What an order filter does to a query for the entries of the order map. -/
theorem parts_of_apply (hkind : filter.kind = .order) {entries : Parameters}
    (hmap : Keyed.get? orderParameter (filter.extract source) = some (.map entries))
    (h : query.apply registry filter (some source) resource = (next, none)) :
    next.conditions = query.conditions ++ [.always] ∧ ∃ clauses,
      Collects (filter.AsksClause registry resource) entries clauses ∧
        next.ordering = query.ordering ++ clauses := by
  obtain ⟨rfl, herror⟩ := Prod.mk.inj h
  have hplan : filter.plan registry (some source) resource =
      filter.planFor registry resource entries := by
    rw [plan, Option.bind_some, parametersOf?_of_map hkind hmap]
  rw [hplan] at herror ⊢
  have hended := concluded_of_error?_eq_none herror
  refine ⟨?_, _, collects_planFor (asksClause_iff hkind) hended, ?_⟩
  · rw [Query.conditions_follow, Query.conditionsOf, hended, Query.conditionOf, tests_planFor hkind]
    rfl
  · rw [Query.ordering_follow, Query.clausesOf_eq_filterMap]

/-- **What a filter contributes.** A filter on values that ends without error attaches the
conjunction of the conditions that the parameters ask for, in their order, and an order filter
orders by the clauses that the entries of the order map ask for, in theirs. -/
theorem contributes_of_apply_eq_ok
    (h : query.apply registry filter (some source) resource = (next, none)) :
    filter.Contributes registry source resource query next where
  family_eq := by
    obtain ⟨rfl, -⟩ := Prod.mk.inj h
    exact Query.family_follow query _
  ordering_of_ne_order hkind := (apply_eq_ok hkind h).2.1
  conditions_of_ne_order hkind := by
    obtain ⟨conditions, hcollects, hnext⟩ := conditions_of_apply hkind h
    refine ⟨conditions, hcollects, fun hnil => ?_, fun hne => ?_⟩
    · rw [hnext, hnil]
      rfl
    · rw [hnext, Predicate.conjunction, if_neg (by simpa using hne)]
  eq_of_no_map hkind hmap := by
    obtain ⟨rfl, -⟩ := Prod.mk.inj h
    rw [plan, Option.bind_some, parametersOf?_of_no_map hkind hmap]
    exact Query.follow_idle query
  conditions_of_map hkind entries hmap := (parts_of_apply hkind hmap h).1
  ordering_of_map hkind entries hmap := (parts_of_apply hkind hmap h).2

/-- A request for short sleeves from some makers. The page is no property of the filter. -/
def shortSleeves : Request :=
  .ofParameters [("sleeve_style", .scalar "short"), ("page", .scalar "2"),
    ("maker.name", .list [.scalar "%Acme%", .scalar "Bottier"])]

/-- A request for the order by makers, in the direction that is the default for it. -/
def byMaker : Request :=
  .ofParameters [("page", .scalar "2"),
    ("order", .map [("sleeve_style", .scalar "asc"), ("maker.name", .scalar "0")])]

theorem contributes_wardrobe :
    let start : Query := { family := "Shirt" }
    let makerName : Target := { hops := ["maker"], family := "Maker", code := "name" }
    (∃ next, start.apply Wardrobe.families Wardrobe.style (some shortSleeves)
        Wardrobe.shirtClass = (next, none) ∧
      Wardrobe.style.Contributes Wardrobe.families shortSleeves Wardrobe.shirtClass start next ∧
      next.ordering = [] ∧
      next.conditions = [.all [
        .like { hops := [], family := "Shirt", code := "sleeve_style" } "%short%",
        .equals makerName (.anyOf ["Acme", "Bottier"])]]) ∧
    ∃ next, start.apply Wardrobe.families Wardrobe.arrangement (some byMaker)
        Wardrobe.shirtClass = (next, none) ∧
      Wardrobe.arrangement.Contributes Wardrobe.families byMaker Wardrobe.shirtClass start next ∧
      next.ordering = [{ target := makerName, direction := .ascending }] ∧
      next.conditions = [.always] :=
  ⟨⟨_, rfl, contributes_of_apply_eq_ok rfl, rfl, rfl⟩,
    ⟨_, rfl, contributes_of_apply_eq_ok rfl, rfl, rfl⟩⟩

end Filter

end AttributeFilter
