import AttributeFilter.Proofs.Filter.Plan
import AttributeFilter.Proofs.Query.Following
import AttributeFilter.Proofs.Query.Reach

/-!
# What a filter on values asks for

A filter on values is read here without its plan: each parameter that it handles asks for a value
at the attribute of its property, reached along the references of the property's path, that meets
the value given. The condition that the plan of the filter amounts to says just that of a record.

## Main definitions

* `Parameter.flag`: the truth value of a parameter.
* `Filter.Drops`: the shapes of values that have no effect.
* `Filter.Meets`: what the kind of the filter asks of a stored value.
* `Filter.Resolves`: the path of a property.
* `Filter.Uses`: a parameter that has to be met.
* `Filter.Admits`: a record that meets everything a filter asks for.

## Main results

* `Filter.passes_of_effect`: the test made for a value is passed by what meets the value.
* `Filter.holds_conditionOf_planFor`: the condition of a filter's plan holds of the records that
  the filter admits.
* `Filter.apply_eq_ok`: what a filter on values adds to a query.
* `Query.mem_execute_apply_iff`: what a query finds after a filter on values.
-/

namespace AttributeFilter

/-- The truth value of a parameter: that of its text, and of a list whether it holds a text. -/
def Parameter.flag : Parameter → Bool
  | .scalar raw => readsAsTrue raw
  | value => !value.scalars.isEmpty

namespace Filter

/-- The values whose shape a filter cannot use: maps, and lists that would have to be searched
other than exactly. -/
def Drops (filter : Filter) (property : String) : Parameter → Prop
  | .scalar _ => False
  | .list _ => filter.kind = .search ∧ filter.searchStrategy property ≠ .ok .exact
  | .map _ => True

/-- What the kind of a filter asks of a stored value: the truth value of the parameter, equality
with one of its texts, or for a text that is searched the pattern of the property's strategy, which
is met only if it can be compiled. An order filter asks for nothing. -/
def Meets (filter : Filter) (store : Store) (registry : Registry) (property : String)
    (given : Parameter) (held : Value) : Prop :=
  match filter.kind, given with
  | .boolean, given => held.equalsBool given.flag = true
  | .numeric, given => ∃ raw ∈ given.scalars, store.Denotes registry raw held
  | .search, .scalar raw =>
    ∃ strategy subject, filter.searchStrategy property = .ok strategy ∧
      held.subject? = some subject ∧ Like.compiles (strategy.pattern raw) = true ∧
        Like.Matches (strategy.pattern raw).toList subject.toList
  | .search, given =>
    ∃ raw ∈ given.scalars, store.Denotes registry (SearchStrategy.bare raw) held
  | .order, _ => True

/-- A property leads to the attribute at the end of a path from the family that governs the
resource, or that the filter is pinned to. -/
def Resolves (filter : Filter) (registry : Registry) (resource property : String)
    (path : AttributePath) : Prop :=
  ∃ family, registry.resolve filter.family resource = .ok family ∧
    registry.path family property = .ok path

/-- A parameter has to be met: its property leads to an attribute of a type that the filter
supports, other than the mixed one, and its value has a shape of use. -/
structure Uses (filter : Filter) (property : String) (given : Parameter) (path : AttributePath) :
    Prop where
  supported : path.target.semantic ∈ filter.types
  definite : path.target.semantic ≠ .mixed
  kept : ¬ filter.Drops property given

/-- A record meets everything that a filter asks for. Each parameter whose property is handled
leads to an attribute; if it has to be met, the record reaches a value there that meets it.
Without a request nothing is asked for. -/
def Admits (filter : Filter) (store : Store) (registry : Registry) (request : Option Request)
    (resource : String) (record : Record) : Prop :=
  ∀ source ∈ request, ∀ property given, (property, given) ∈ filter.extract source →
    filter.properties.contains property = true →
      ∃ path, filter.Resolves registry resource property path ∧
        (filter.Uses property given path →
          ∃ held, store.Yields record (path.hops.map Attribute.code) path.target.code held ∧
            filter.Meets store registry property given held)

variable {filter : Filter} {store : Store} {registry : Registry} {resource property : String}
  {given : Parameter} {record : Record}

theorem Resolves.unique {path other : AttributePath}
    (h : filter.Resolves registry resource property path)
    (h' : filter.Resolves registry resource property other) : path = other := by
  obtain ⟨family, hfamily, hpath⟩ := h
  obtain ⟨family', hfamily', hpath'⟩ := h'
  cases hfamily.symm.trans hfamily'
  exact Except.ok.inj (hpath.symm.trans hpath')

theorem handles_iff {semantic : SemanticType} :
    filter.handles semantic = true ↔ semantic ∈ filter.types ∧ semantic ≠ .mixed := by
  simp [FilterSpec.handles, and_comm]

/-- A value of a shape of use has to be met if the filter handles the values of the attribute. -/
theorem uses_iff_handles (hkept : ¬ filter.Drops property given) {path : AttributePath} :
    filter.Uses property given path ↔ filter.handles path.target.semantic = true := by
  rw [handles_iff]
  exact ⟨fun h => ⟨h.supported, h.definite⟩, fun h => ⟨h.1, h.2, hkept⟩⟩

/-! ### The test for a value -/

theorem effect_of_drops (hd : filter.Drops property given)
    {effect : Effect} (he : filter.effect property given = .ok effect) : effect = .nothing := by
  cases given with
  | scalar raw => exact absurd hd id
  | map entries =>
    cases he
    rfl
  | list items =>
    obtain ⟨hk, hs⟩ := hd
    simp only [Filter.effect, hk, Outcome.map_eq_ok_iff] at he
    obtain ⟨strategy, hstrategy, rfl⟩ := he
    have hne : strategy ≠ .exact := fun h => hs (h ▸ hstrategy)
    simp [Effect.ofSearch, hne]

theorem isEqual_ofParameter_iff (convert : String → String) (held : Value) :
    (Comparand.ofParameter convert given).isEqual store registry held = true ↔
      ∃ raw ∈ given.scalars, store.Denotes registry (convert raw) held := by
  cases given with
  | scalar raw => simp [Comparand.ofParameter, Comparand.isEqual, Parameter.scalars,
      Store.equalsText_iff]
  | list items | map entries =>
    simp only [Comparand.ofParameter, Comparand.isEqual, List.any_eq_true, List.mem_map,
      Store.equalsText_iff]
    constructor
    · rintro ⟨_, ⟨raw, hraw, rfl⟩, hdenotes⟩
      exact ⟨raw, hraw, hdenotes⟩
    · rintro ⟨raw, hraw, hdenotes⟩
      exact ⟨_, ⟨raw, hraw, rfl⟩, hdenotes⟩

/-- The test made for a value of a shape of use is passed by the stored values that meet it. -/
theorem passes_of_effect (hkind : filter.kind ≠ .order) (hd : ¬ filter.Drops property given)
    {effect : Effect} (he : filter.effect property given = .ok effect) :
    ∃ test, effect = .test test ∧ ∀ held,
      test.passes store registry held = true ↔ filter.Meets store registry property given held := by
  cases hk : filter.kind with
  | order => exact absurd hk hkind
  | boolean =>
    cases given with
    | map entries => exact absurd trivial hd
    | scalar raw | list items =>
      simp only [Filter.effect, hk, Except.ok.injEq] at he
      subst he
      exact ⟨_, rfl, fun held => by
        simp [Meets, hk, Test.passes, Comparand.isEqual, Parameter.flag]⟩
  | numeric =>
    cases given with
    | map entries => exact absurd trivial hd
    | scalar raw | list items =>
      simp only [Filter.effect, hk, Except.ok.injEq] at he
      subst he
      exact ⟨_, rfl, fun held => by
        simp [Meets, hk, Test.passes, isEqual_ofParameter_iff]⟩
  | search =>
    cases given with
    | map entries => exact absurd trivial hd
    | scalar raw =>
      simp only [Filter.effect, hk, Outcome.map_eq_ok_iff] at he
      obtain ⟨strategy, hstrategy, rfl⟩ := he
      exact ⟨_, rfl, fun held => by
        simp [Meets, hk, Test.passes, hstrategy, Option.any_eq_true, Like.finds_iff]⟩
    | list items =>
      simp only [Filter.effect, hk, Outcome.map_eq_ok_iff] at he
      obtain ⟨strategy, hstrategy, rfl⟩ := he
      have hexact : strategy = .exact := by
        by_cases hne : strategy = .exact
        · exact hne
        · exact absurd ⟨hk, fun h => hne (Except.ok.inj (hstrategy.symm.trans h))⟩ hd
      subst hexact
      exact ⟨_, rfl, fun held => by
        simp [Meets, hk, Test.passes, isEqual_ofParameter_iff]⟩

/-- A value of a shape of use amounts to a test. -/
theorem exists_test_of_not_drops (hkind : filter.kind ≠ .order)
    (hd : ¬ filter.Drops property given) :
    ∃ test, filter.effect property given = .ok (.test test) := by
  obtain ⟨effect, heffect⟩ := effect_isOk filter property given
  -- that it is a test does not depend on the store and the registry it is put to
  obtain ⟨test, rfl, -⟩ := @passes_of_effect filter .empty ⟨[], List.nodup_nil⟩ property given
    hkind hd effect heffect
  exact ⟨test, heffect⟩

/-! ### The condition for a request -/

theorem parametersOf?_of_ne_order (hkind : filter.kind ≠ .order) (source : Request) :
    filter.parametersOf? source = some (filter.extract source) := by
  rw [parametersOf?]
  cases hk : filter.kind <;> simp_all

theorem plan_of_ne_order (hkind : filter.kind ≠ .order) (source : Request) :
    filter.plan registry (some source) resource =
      filter.planFor registry resource (filter.extract source) := by
  rw [plan, Option.bind_some, parametersOf?_of_ne_order hkind]

theorem orders_plan_of_ne_order (hkind : filter.kind ≠ .order) {request : Option Request} :
    (filter.plan registry request resource).orders = [] := by
  cases request with
  | none => rfl
  | some source => rw [plan_of_ne_order hkind, orders_planFor hkind]

/-- The tests of a plan that concludes are those made for the parameters that have to be met. -/
theorem mem_tests_planFor_iff {parameters : Parameters}
    (hended : (filter.planFor registry resource parameters).ending = .concluded)
    {path : AttributePath} {test : Test} :
    (path, test) ∈ (filter.planFor registry resource parameters).tests ↔
      ∃ property given, (property, given) ∈ parameters ∧
        filter.properties.contains property = true ∧
          filter.Resolves registry resource property path ∧ filter.Uses property given path ∧
            filter.effect property given = .ok (.test test) := by
  simp only [Plan.tests, List.mem_filterMap]
  constructor
  · rintro ⟨step, hstep, htest⟩
    obtain ⟨⟨property, given⟩, hmem, hentry⟩ := mem_steps_planFor hstep
    obtain ⟨hc, hresolved, hh, heffect⟩ := step?_eq_some_iff.1 hentry
    rw [Step.test?] at htest
    split at htest
    · next test' he =>
      cases htest
      rw [he] at heffect
      have hkept : ¬ filter.Drops property given := fun hd => by
        cases effect_of_drops hd heffect
      exact ⟨property, given, hmem, hc, hresolved, (uses_iff_handles hkept).2 hh, heffect⟩
    · cases htest
  · rintro ⟨property, given, hmem, hc, hresolved, huses, heffect⟩
    have hh := (uses_iff_handles huses.kept).1 huses
    refine ⟨⟨path, .test test⟩, mem_steps_planFor_of_concluded hended hmem ?_, rfl⟩
    exact step?_eq_some_iff.2 ⟨hc, hresolved, hh, heffect⟩

/-- The condition that the plan of a filter amounts to holds of the records that the filter
admits. -/
theorem holds_conditionOf_planFor (hkind : filter.kind ≠ .order) {source : Request}
    (hended : (filter.planFor registry resource (filter.extract source)).ending = .concluded) :
    (Query.conditionOf (filter.planFor registry resource (filter.extract source))).holds
        store registry record = true ↔
      filter.Admits store registry (some source) resource record := by
  simp only [Query.holds_conditionOf_iff, Test.holdsAt_iff, Prod.forall,
    mem_tests_planFor_iff hended]
  constructor
  · intro h source' hsource property given hmem hc
    cases hsource
    obtain ⟨step?, hstep⟩ := step?_of_concluded hended hmem
    obtain ⟨family, path, hfamily, hpath⟩ := path_of_step?_eq_ok hstep hc
    refine ⟨path, ⟨family, hfamily, hpath⟩, fun huses => ?_⟩
    obtain ⟨effect, heffect⟩ := effect_isOk filter property given
    obtain ⟨test, rfl, hmeets⟩ := passes_of_effect hkind huses.kept heffect
    obtain ⟨held, hyields, hpasses⟩ :=
      h path test ⟨property, given, hmem, hc, ⟨family, hfamily, hpath⟩, huses, heffect⟩
    exact ⟨held, hyields, (hmeets held).1 hpasses⟩
  · rintro h path test ⟨property, given, hmem, hc, hresolved, huses, heffect⟩
    obtain ⟨path', hresolved', hmet⟩ := h source rfl property given hmem hc
    cases hresolved.unique hresolved'
    obtain ⟨held, hyields, hm⟩ := hmet huses
    obtain ⟨test', htest, hmeets⟩ := passes_of_effect hkind huses.kept heffect
    cases htest
    exact ⟨held, hyields, (hmeets held).2 hm⟩

/-- A filter on values that ends without error leaves family and order of a query alone, and adds
what it asks for to the conditions. -/
theorem apply_eq_ok (hkind : filter.kind ≠ .order) {request : Option Request}
    {query next : Query} (happly : query.apply registry filter request resource = (next, none)) :
    next.family = query.family ∧ next.ordering = query.ordering ∧
      ∀ store record, next.admits store registry record = true ↔
        query.admits store registry record = true ∧
          filter.Admits store registry request resource record := by
  cases request with
  | none =>
    cases happly
    simp [Query.follow, Query.clausesOf, Plan.orders, Plan.idle, Query.admits, Admits]
  | some source =>
    simp only [Query.apply, plan_of_ne_order hkind, Prod.mk.injEq] at happly
    obtain ⟨rfl, herror⟩ := happly
    have hended := concluded_of_error?_eq_none herror
    refine ⟨Query.family_follow _ _, ?_, fun store record => ?_⟩
    · rw [Query.ordering_follow, Query.clausesOf, orders_planFor hkind, List.map_nil,
        List.append_nil]
    · rw [Query.admits_follow_iff, forall_prop_of_true hended, ← Query.holds_conditionOf_iff,
        holds_conditionOf_planFor hkind hended]

end Filter

/-- After a filter on values a query finds those of its records that the filter admits. -/
theorem Query.mem_execute_apply_iff {query : Query} {filter : Filter} {store : Store}
    {registry : Registry} {resource : String} {record : Record} (hkind : filter.kind ≠ .order)
    {request : Option Request} (hended : (query.apply registry filter request resource).2 = none) :
    record ∈ (query.apply registry filter request resource).1.execute store registry ↔
      record ∈ query.execute store registry ∧
        filter.Admits store registry request resource record := by
  obtain ⟨hfamily, -, hadmits⟩ := filter.apply_eq_ok hkind (Prod.ext rfl hended)
  rw [mem_execute, mem_execute, hfamily, hadmits]
  simp only [and_assoc]

end AttributeFilter
