import AttributeFilter.Proofs.Filter.Meaning
import AttributeFilter.Proofs.Query.Following
import AttributeFilter.Proofs.Schema.Lookup

/-!
# What a failing filter leaves behind

A filter that ends at an error attaches no condition, since conditions are attached together when
all parameters have been looked at. Order clauses are added one by one, so an order filter leaves
those of the entries before the one it fails at. Which clause an entry of the order map produces is
said here without the plan of the filter.

## Main definitions

* `Step.clause?`: the clause of a step that orders.
* `Filter.directionFor?`: the direction that a value asks for.
* `Filter.handledPath?`: the path of a property that has an effect.
* `Filter.clauseOf?`: the clause that an entry of the order map produces.
* `Filter.Fails`: a property that ends the filter at an error.
* `Filter.LeavesBehind`: a query as a failing filter leaves it.

## Main results

* `Filter.clausesOf_planFor`: the clauses of a plan are those of its entries.
* `Filter.isLookup_of_plan`: what a filter fails at is a look-up.
* `Filter.leavesBehind_of_apply_eq_error`: what a failing filter leaves behind.
-/

namespace AttributeFilter

def Step.clause? (step : Step) : Option Clause :=
  step.order?.map fun ordered => { target := ordered.1.toTarget, direction := ordered.2 }

theorem Query.clausesOf_eq_filterMap (plan : Plan) :
    clausesOf plan = plan.steps.filterMap Step.clause? := by
  rw [clausesOf, Plan.orders, List.map_filterMap]
  rfl

namespace Filter

variable {filter : Filter} {registry : Registry} {resource property : String} {value : Parameter}
  {error : Error}

/-- The direction that a value asks for: the one that a text names. The empty text and `0` ask for
the default direction of the property, if it has one. -/
def directionFor? (filter : Filter) (property : String) : Parameter → Option Direction
  | .scalar token =>
    Direction.ofText? <| if token = "" ∨ token = "0" then
      (filter.properties.strategy? property).getD token else token
  | _ => none

/-- The path of a property that the filter handles to an attribute whose values it handles. -/
def handledPath? (filter : Filter) (registry : Registry) (resource property : String) :
    Option AttributePath :=
  if filter.properties.contains property then
    ((registry.resolve filter.family resource).toOption.bind fun family =>
      (registry.path family property).toOption).filter fun path =>
        filter.handles path.target.semantic
  else none

/-- The clause that an entry of the order map produces: the attribute of its property, in the
direction that its value asks for. -/
def clauseOf? (filter : Filter) (registry : Registry) (resource : String)
    (entry : String × Parameter) : Option Clause :=
  (filter.handledPath? registry resource entry.1).bind fun path =>
    (filter.directionFor? entry.1 entry.2).map fun direction =>
      { target := path.toTarget, direction }

/-- A property ends the filter at an error: it is handled, but there is no family for the resource,
or no way from there to an attribute. -/
def Fails (filter : Filter) (registry : Registry) (resource property : String) (error : Error) :
    Prop :=
  filter.properties.contains property = true ∧
    (registry.resolve filter.family resource = .error error ∨
      ∃ family, registry.resolve filter.family resource = .ok family ∧
        registry.path family property = .error error)

/-- A query as a filter leaves it that ends at an error. Its conditions are those of before, and so
is its order, unless the filter is an order filter. Then the order map has an entry that fails, with
entries before it that do not, and the order is extended by their clauses. -/
structure LeavesBehind (filter : Filter) (registry : Registry) (request : Option Request)
    (resource : String) (error : Error) (query final : Query) : Prop where
  family_eq : final.family = query.family
  conditions_eq : final.conditions = query.conditions
  ordering_of_ne_order : filter.kind ≠ .order → final.ordering = query.ordering
  ordering_of_order : filter.kind = .order →
    ∃ source before property value after, request = some source ∧
      Keyed.get? orderParameter (filter.extract source) =
        some (.map (before ++ (property, value) :: after)) ∧
      (∀ entry ∈ before, ∀ error, ¬ filter.Fails registry resource entry.1 error) ∧
      filter.Fails registry resource property error ∧
      final.ordering = query.ordering ++ before.filterMap (filter.clauseOf? registry resource)

/-! ### Clauses -/

theorem handledPath?_eq_some_iff {path : AttributePath} :
    filter.handledPath? registry resource property = some path ↔
      filter.properties.contains property = true ∧
        filter.Resolves registry resource property path ∧
          filter.handles path.target.semantic = true := by
  rw [handledPath?]
  split
  · next hc =>
    simp [hc, Resolves, Option.filter_eq_some_iff, Option.bind_eq_some_iff,
      Outcome.toOption_eq_some_iff]
  · next hc => simp [hc]

theorem effect_of_order (hkind : filter.kind = .order) (property : String) (value : Parameter) :
    filter.effect property value =
      .ok (((filter.directionFor? property value).map Effect.order).getD .nothing) := by
  cases value with
  | map entries => rfl
  | list items => simp [effect, hkind, Effect.ofOrder, directionFor?]
  | scalar token =>
    simp only [effect, hkind, Effect.ofOrder, directionFor?]
    generalize Direction.ofText? _ = direction?
    cases direction? <;> rfl

/-- What an entry of the order map produces is the clause of its step. -/
theorem clauseOf?_eq_bind (hkind : filter.kind = .order) {found : Option Step}
    (h : filter.step? registry resource property value = .ok found) :
    filter.clauseOf? registry resource (property, value) = found.bind Step.clause? := by
  cases found with
  | none =>
    have hnone : filter.handledPath? registry resource property = none := by
      refine Option.eq_none_iff_forall_not_mem.2 fun path hpath => ?_
      obtain ⟨hc, hresolves, hhandles⟩ := handledPath?_eq_some_iff.1 hpath
      have hstep : filter.step? registry resource property value = .ok (some ⟨path, _⟩) :=
        step?_eq_some_iff.2 ⟨hc, hresolves, hhandles, effect_of_order hkind property value⟩
      cases h.symm.trans hstep
    rw [clauseOf?, hnone]
    rfl
  | some step =>
    obtain ⟨hc, hresolves, hhandles, heffect⟩ := step?_eq_some_iff.1 h
    rw [effect_of_order hkind, Except.ok.injEq] at heffect
    rw [clauseOf?, handledPath?_eq_some_iff.2 ⟨hc, hresolves, hhandles⟩, Option.bind_some,
      Option.bind_some, Step.clause?, Step.order?, ← heffect]
    cases filter.directionFor? property value <;> rfl

/-- The clauses of a plan that looks at all its entries are those that the entries produce. -/
theorem clausesOf_planFor (hkind : filter.kind = .order) {parameters : Parameters}
    (hended : (filter.planFor registry resource parameters).ending = .concluded) :
    Query.clausesOf (filter.planFor registry resource parameters) =
      parameters.filterMap (filter.clauseOf? registry resource) := by
  rw [Query.clausesOf_eq_filterMap]
  induction parameters with
  | nil => rfl
  | cons entry rest ih =>
    rw [planFor_cons] at hended ⊢
    cases hstep : filter.step? registry resource entry.1 entry.2 with
    | error error =>
      rw [hstep] at hended
      cases hended
    | ok found =>
      rw [hstep] at hended
      rw [List.filterMap_cons, clauseOf?_eq_bind hkind hstep]
      cases found with
      | none => exact ih hended
      | some step =>
        simp only [Plan.cons, List.filterMap_cons, Option.bind_some]
        rw [ih hended]

/-! ### Failure -/

/-- A filter fails only at a property that is not found, and has looked without error at all the
parameters before it. -/
theorem exists_fails_of_planFor {parameters : Parameters}
    (h : (filter.planFor registry resource parameters).error? = some error) :
    ∃ before property value after, parameters = before ++ (property, value) :: after ∧
      (∀ entry ∈ before, ∀ error, ¬ filter.Fails registry resource entry.1 error) ∧
      filter.Fails registry resource property error ∧
      (filter.planFor registry resource before).ending = .concluded ∧
      (filter.planFor registry resource parameters).steps =
        (filter.planFor registry resource before).steps := by
  obtain ⟨before, property, value, after, hparameters, hended, hfails, hsteps⟩ :=
    exists_failing_of_planFor h
  refine ⟨before, property, value, after, hparameters, fun entry hentry error hfailing => ?_,
    step?_eq_error_iff.1 hfails, hended, hsteps⟩
  obtain ⟨found, hfound⟩ := step?_of_concluded hended hentry
  have herror : filter.step? registry resource entry.1 entry.2 = .error error :=
    step?_eq_error_iff.2 hfailing
  cases hfound.symm.trans herror

theorem isLookup_of_fails (h : filter.Fails registry resource property error) : error.IsLookup := by
  rcases h.2 with h | ⟨family, -, h⟩
  · exact (Registry.resolve_eq_error h).1
  · exact Registry.isLookup_of_path h

/-- A filter that is applied ends at an error of a look-up only. -/
theorem isLookup_of_plan {request : Option Request}
    (h : (filter.plan registry request resource).error? = some error) : error.IsLookup := by
  rw [plan] at h
  split at h
  · cases h
  · obtain ⟨_, property, _, _, _, _, hfails, _⟩ := exists_fails_of_planFor h
    exact isLookup_of_fails hfails

/-- An order filter whose plan fails has an order map to look at. -/
theorem exists_order_of_error? (hkind : filter.kind = .order) {request : Option Request}
    (h : (filter.plan registry request resource).error? = some error) :
    ∃ source order, request = some source ∧
      Keyed.get? orderParameter (filter.extract source) = some (.map order) ∧
      filter.plan registry request resource = filter.planFor registry resource order := by
  rw [plan] at h ⊢
  split at h
  · cases h
  · next order horder =>
    obtain ⟨source, hsource, hparameters⟩ := Option.bind_eq_some_iff.1 horder
    refine ⟨source, order, hsource, ?_, rfl⟩
    simp only [parametersOf?, hkind] at hparameters
    split at hparameters
    · next found hfound =>
      cases hparameters
      exact hfound
    · cases hparameters

/-- A filter that ends at an error leaves the conditions of a query alone, and its order as well,
unless it is an order filter; then the order is extended by what its entries before the failing one
produce. -/
theorem leavesBehind_of_apply_eq_error {request : Option Request} {query final : Query}
    (h : query.apply registry filter request resource = (final, some error)) :
    filter.LeavesBehind registry request resource error query final := by
  obtain ⟨rfl, herror⟩ := Prod.mk.inj h
  refine ⟨Query.family_follow query _, Query.conditions_follow_of_error query herror,
    fun hkind => ?_, fun hkind => ?_⟩
  · rw [Query.ordering_follow, Query.clausesOf, orders_plan_of_ne_order hkind, List.map_nil,
      List.append_nil]
  · obtain ⟨source, order, hsource, horder, hplan⟩ := exists_order_of_error? hkind herror
    rw [hplan] at herror ⊢
    obtain ⟨before, property, value, after, rfl, hbefore, hfails, hended, hsteps⟩ :=
      exists_fails_of_planFor herror
    refine ⟨source, before, property, value, after, hsource, horder, hbefore, hfails, ?_⟩
    rw [Query.ordering_follow, Query.clausesOf_eq_filterMap, hsteps, ← Query.clausesOf_eq_filterMap,
      clausesOf_planFor hkind hended]

end Filter

end AttributeFilter
