import AttributeFilter.Proofs.Filter.Plan
import AttributeFilter.Proofs.Query.Targets
import AttributeFilter.Proofs.Schema.Resolution
import AttributeFilter.Sample.Filters

/-!
# Targets stay well formed

A query for a resource can be given to named filters again and again, each time for another
request. Whatever the filters do, also those that end at an error and those that are pinned to a
family, every target that the query mentions leads from its own family across references to an
attribute of a type that one of the filters supports.

## Main definitions

* `Registry.Locates`: a target leads from a family to an attribute.
* `Service.Supports`: one of the named filters supports a semantic type.
* `FilterCall`, `Service.run`: filters applied for one request, and such calls one after the
  other.
* `Service.Grounded`: what a run keeps of a query.

## Main results

* `Service.grounded_apply`, `Service.grounded_run`: one call keeps it, and so does a run.
* `Service.targets_run`: the targets of a query after any run of calls.
-/

namespace AttributeFilter

/-- A target leads from a family to an attribute: across references that each allow exactly one
registered family, to an attribute that is declared by the family at the end, which is the family
of the target. -/
def Registry.Locates (registry : Registry) (root : Family) (target : Target) (field : Attribute) :
    Prop :=
  ∃ hops last, target.hops = hops.map Attribute.code ∧ registry.Traverses root hops last ∧
    target.family = last.code ∧ last.attribute? target.code = some field

/-- A call that applies named filters for a request. -/
structure FilterCall where
  request : Option Request
  names : List String

namespace Service

/-- A semantic type is not the mixed one, and one of the named filters supports it. -/
def Supports (service : Service) (names : List String) (semantic : SemanticType) : Prop :=
  semantic ≠ .mixed ∧
    ∃ name ∈ names, ∃ filter, service.getFilter name = .ok filter ∧ semantic ∈ filter.types

/-- Makes calls one after the other. A call that ends at an error leaves the query as far as it
came, and the next call goes on with it. -/
def run (service : Service) (resource : String) (query : Query) (calls : List FilterCall) : Query :=
  calls.foldl (fun query call => (service.apply call.request resource call.names query).1) query

/-- The query is one over the family, and each of its targets leads from there to an attribute of
a type that one of the named filters supports. -/
structure Grounded (service : Service) (root : Family) (names : List String) (query : Query) :
    Prop where
  family_eq : query.family = root.code
  located : ∀ target ∈ query.targets, ∃ field,
    service.registry.Locates root target field ∧ service.Supports names field.semantic

variable {service : Service} {resource : String} {root : Family} {query : Query}

/-! ### One filter -/

theorem Supports.mono {names more : List String} (hsub : names ⊆ more) {semantic : SemanticType}
    (h : service.Supports names semantic) : service.Supports more semantic := by
  obtain ⟨hdefinite, name, hname, hfilter⟩ := h
  exact ⟨hdefinite, name, hsub hname, hfilter⟩

theorem Grounded.mono {names more : List String} (hsub : names ⊆ more)
    (h : service.Grounded root names query) : service.Grounded root more query := by
  refine ⟨h.family_eq, fun target htarget => ?_⟩
  obtain ⟨field, hlocated, hsupports⟩ := h.located target htarget
  exact ⟨field, hlocated, hsupports.mono hsub⟩

/-- The steps of a plan lead from the governing family to attributes that the filter handles. -/
theorem locates_step {filter : Filter} {request : Option Request}
    (hgoverning : service.registry.governing resource = .ok root) {step : Step}
    (hstep : step ∈ (filter.plan service.registry request resource).steps) :
    service.registry.Locates root step.path.toTarget step.path.target ∧
      step.path.target.semantic ≠ .mixed ∧ step.path.target.semantic ∈ filter.types := by
  rw [Filter.plan] at hstep
  split at hstep
  · simp [Plan.idle] at hstep
  · obtain ⟨entry, _, hentry⟩ := Filter.mem_steps_planFor hstep
    obtain ⟨_, ⟨family, hfamily, hpath⟩, hhandles, _⟩ := Filter.step?_eq_some_iff.1 hentry
    cases Registry.resolve_eq_governing hgoverning hfamily
    obtain ⟨last, hways, hdeclared⟩ := Registry.traverses_path hpath
    have howned := last.owned _ (Family.mem_of_attribute?_eq_some hdeclared)
    have hhandles' : step.path.target.semantic ≠ .mixed ∧
        step.path.target.semantic ∈ filter.types := by
      simpa [FilterSpec.handles] using hhandles
    exact ⟨⟨step.path.hops, last, rfl, hways, howned, hdeclared⟩, hhandles'⟩

/-- One filter keeps a query grounded, whether it ends at an error or not. -/
theorem grounded_filter {filter : Filter} {name : String} {names : List String}
    (hname : name ∈ names) (hfilter : service.getFilter name = .ok filter)
    (hgoverning : service.registry.governing resource = .ok root) (request : Option Request)
    (h : service.Grounded root names query) :
    service.Grounded root names (query.apply service.registry filter request resource).1 := by
  refine ⟨(Query.family_follow query _).trans h.family_eq, fun target htarget => ?_⟩
  rcases Query.mem_targets_follow htarget with hold | ⟨step, hstep, rfl⟩
  · exact h.located target hold
  · obtain ⟨hlocated, hdefinite, hsupported⟩ := locates_step hgoverning hstep
    exact ⟨_, hlocated, hdefinite, name, hname, filter, hfilter, hsupported⟩

/-! ### Runs -/

theorem grounded_apply {names : List String} (request : Option Request)
    (hgoverning : service.registry.governing resource = .ok root) {called : List String}
    (hcalled : called ⊆ names) (h : service.Grounded root names query) :
    service.Grounded root names (service.apply request resource called query).1 := by
  induction called generalizing query with
  | nil => exact h
  | cons name rest ih =>
    rw [List.cons_subset] at hcalled
    rw [apply]
    split
    · exact h
    · next filter hfilter =>
      have hnext := grounded_filter hcalled.1 hfilter hgoverning request h
      split
      · next next error hq =>
        rw [hq] at hnext
        exact hnext
      · next next hq =>
        rw [hq] at hnext
        exact ih hcalled.2 hnext

theorem grounded_run {names : List String}
    (hgoverning : service.registry.governing resource = .ok root) {calls : List FilterCall}
    (hcalls : ∀ call ∈ calls, call.names ⊆ names) (h : service.Grounded root names query) :
    service.Grounded root names (service.run resource query calls) := by
  induction calls generalizing query with
  | nil => exact h
  | cons call rest ih =>
    rw [List.forall_mem_cons] at hcalls
    exact ih hcalls.2 (grounded_apply call.request hgoverning hcalls.1 h)

/-- **Targets stay well formed.** After any run of calls on the query for a resource, every target
that the query mentions leads from the query's own family to an attribute of a type, other than
the mixed one, that a filter named in one of the calls supports. -/
theorem targets_run {start : Query} (hstart : service.query resource = .ok start)
    (calls : List FilterCall) :
    ∃ root, service.registry.family? (service.run resource start calls).family = some root ∧
      ∀ target ∈ (service.run resource start calls).targets, ∃ field,
        service.registry.Locates root target field ∧ field.semantic ≠ .mixed ∧
          ∃ call ∈ calls, ∃ name ∈ call.names, ∃ filter,
            service.getFilter name = .ok filter ∧ field.semantic ∈ filter.types := by
  obtain ⟨root, hgoverning, hquery⟩ := Outcome.bind_eq_ok_iff.1 hstart
  cases hquery
  have hnone : service.Grounded root (calls.flatMap FilterCall.names) { family := root.code } :=
    ⟨rfl, by simp [Query.targets]⟩
  have hcalls : ∀ call ∈ calls, call.names ⊆ calls.flatMap FilterCall.names :=
    fun call hcall name hname => List.mem_flatMap.2 ⟨call, hcall, hname⟩
  have hrun := grounded_run hgoverning hcalls hnone
  refine ⟨root, ?_, fun target htarget => ?_⟩
  · rw [hrun.family_eq]
    exact Registry.family?_of_governing hgoverning
  · obtain ⟨field, hlocated, hdefinite, name, hname, filter, hfilter, hsupported⟩ :=
      hrun.located target htarget
    obtain ⟨call, hcall, hname⟩ := List.mem_flatMap.1 hname
    exact ⟨field, hlocated, hdefinite, call, hcall, name, hname, filter, hfilter, hsupported⟩

/-- Calls on the catalog: one ends at the stale colour after it has ordered by price, one names a
filter that there is not, and one selects. -/
def sampleCalls : List FilterCall :=
  [{ request := some Catalog.byColour, names := ["texts", "sorting"] },
    { request := none, names := ["sizes"] },
    { request := some Catalog.outOfStock, names := ["texts", "amounts", "sorting"] }]

theorem targets_run_sampleCalls :
    Catalog.service.query Catalog.productClass = .ok { family := "Product" } ∧
    (Catalog.service.run Catalog.productClass { family := "Product" } sampleCalls).targets.map
      Target.code = ["country", "stock", "price"] ∧
    ∃ root, Catalog.service.registry.family? (Catalog.service.run Catalog.productClass
        { family := "Product" } sampleCalls).family = some root ∧
      ∀ target ∈ (Catalog.service.run Catalog.productClass
          { family := "Product" } sampleCalls).targets, ∃ field,
        Catalog.service.registry.Locates root target field ∧ field.semantic ≠ .mixed ∧
          ∃ call ∈ sampleCalls, ∃ name ∈ call.names, ∃ filter,
            Catalog.service.getFilter name = .ok filter ∧ field.semantic ∈ filter.types :=
  ⟨rfl, by decide, targets_run rfl sampleCalls⟩

end Service

end AttributeFilter
