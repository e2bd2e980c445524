import AttributeFilter.Proofs.Filter.Meaning
import AttributeFilter.Proofs.Query.Execution
import AttributeFilter.Proofs.Query.Following
import AttributeFilter.Sample.Filters

/-!
# Runs of filters

What a filter does for a request, and the error that it ends at, do not depend on the query. So a
run of filters ends at the first error that one of them has by itself, and a run without error does
to a query what the plans of the filters do. The order of the filters then shows only in the order
of the clauses, and only order filters have clauses.

## Main definitions

* `Service.planOf`: what the filter of a name does for a request.
* `Service.errorOf?`: the error that it ends at.
* `Service.isOrder`: whether a name is that of an order filter.

## Main results

* `Service.apply_cons`: one filter of a run.
* `Service.error_apply`, `Service.apply_eq_foldl`: how a run ends, and the query it leaves if it
  ends without error.
* `Service.apply_perm`: a run can be rearranged as long as the order filters keep their order.
-/

namespace AttributeFilter.Service

variable {service : Service} {request : Option Request} {resource : String}

/-- What the filter of a name does for a request. Without such a filter nothing is done. -/
def planOf (service : Service) (request : Option Request) (resource name : String) : Plan :=
  match service.getFilter name with
  | .ok filter => filter.plan service.registry request resource
  | .error _ => .idle

/-- The error that the filter of a name ends at. There may be no such filter. -/
def errorOf? (service : Service) (request : Option Request) (resource name : String) :
    Option Error :=
  match service.getFilter name with
  | .ok filter => (filter.plan service.registry request resource).error?
  | .error error => some error

def isOrder (service : Service) (name : String) : Bool :=
  match service.getFilter name with
  | .ok filter => filter.kind = .order
  | .error _ => false

/-! ### One filter -/

/-- The filter that comes first in a run acts by itself, and the others go on with the query that it
leaves unless it ends at an error. -/
theorem apply_cons (name : String) (rest : List String) (query : Query) :
    service.apply request resource (name :: rest) query =
      match service.errorOf? request resource name with
      | some error => (query.follow (service.planOf request resource name), some error)
      | none =>
        service.apply request resource rest
          (query.follow (service.planOf request resource name)) := by
  rw [apply, errorOf?, planOf]
  cases service.getFilter name with
  | error error => simp
  | ok filter =>
    simp only [Query.apply]
    cases (filter.plan service.registry request resource).error? <;> rfl

/-- Only order filters have clauses. -/
theorem clausesOf_planOf {name : String} (h : service.isOrder name = false) :
    Query.clausesOf (service.planOf request resource name) = [] := by
  rw [planOf]
  rw [isOrder] at h
  cases hfilter : service.getFilter name with
  | error error => rfl
  | ok filter =>
    rw [hfilter] at h
    rw [Query.clausesOf, Filter.orders_plan_of_ne_order (of_decide_eq_false h), List.map_nil]

/-! ### Runs -/

/-- A run ends at the first error that one of its filters has by itself. -/
theorem error_apply (names : List String) (query : Query) :
    (service.apply request resource names query).2 =
      names.findSome? (service.errorOf? request resource) := by
  induction names generalizing query with
  | nil => rfl
  | cons name rest ih =>
    rw [apply_cons, List.findSome?_cons]
    cases service.errorOf? request resource name with
    | some error => rfl
    | none => exact ih _

/-- A run whose filters all end without error does what their plans do. -/
theorem apply_eq_foldl {names : List String}
    (h : ∀ name ∈ names, service.errorOf? request resource name = none) (query : Query) :
    service.apply request resource names query =
      ((names.map (service.planOf request resource)).foldl Query.follow query, none) := by
  induction names generalizing query with
  | nil => rfl
  | cons name rest ih =>
    rw [List.forall_mem_cons] at h
    rw [apply_cons, h.1, List.map_cons, List.foldl_cons]
    exact ih h.2 _

/-- The clauses that filters have are those of the order filters among them. -/
theorem flatMap_clausesOf_filter (names : List String) :
    (names.filter service.isOrder).flatMap
        (fun name => Query.clausesOf (service.planOf request resource name)) =
      names.flatMap fun name => Query.clausesOf (service.planOf request resource name) := by
  induction names with
  | nil => rfl
  | cons name rest ih =>
    cases h : service.isOrder name with
    | true => rw [List.filter_cons_of_pos h, List.flatMap_cons, List.flatMap_cons, ih]
    | false =>
      rw [List.filter_cons_of_neg (by simp [h]), List.flatMap_cons, clausesOf_planOf h, ih,
        List.nil_append]

/-! ### Rearranged runs -/

section Rearranged

variable {names rearranged : List String}

/-- Filters that all end without error do so in any order. -/
theorem error_apply_perm (hperm : names.Perm rearranged) (query : Query) :
    (service.apply request resource names query).2 = none ↔
      (service.apply request resource rearranged query).2 = none := by
  simp only [error_apply, List.findSome?_eq_none_iff, hperm.mem_iff]

/-- The clauses that filters add are the same as long as the order filters keep their order. -/
theorem ordering_foldl_congr (request : Option Request) (resource : String)
    (horder : names.filter service.isOrder = rearranged.filter service.isOrder) (query : Query) :
    ((names.map (service.planOf request resource)).foldl Query.follow query).ordering =
      ((rearranged.map (service.planOf request resource)).foldl Query.follow query).ordering := by
  rw [Query.ordering_foldl_follow, Query.ordering_foldl_follow, List.flatMap_map, List.flatMap_map,
    ← flatMap_clausesOf_filter names, horder, flatMap_clausesOf_filter]

/-- **The order of filters shows in the order of clauses only.** Filters are given in two orders
that differ in how filters on values stand to each other and to order filters. One run ends without
error if and only if the other one does, and then both leave queries that order alike and find the
same records in every store. -/
theorem apply_perm (hperm : names.Perm rearranged)
    (horder : names.filter service.isOrder = rearranged.filter service.isOrder)
    (query : Query) :
    ((service.apply request resource names query).2 = none ↔
      (service.apply request resource rearranged query).2 = none) ∧
    ((service.apply request resource names query).2 = none →
      (service.apply request resource names query).1.ordering =
        (service.apply request resource rearranged query).1.ordering ∧
      ∀ store registry,
        (service.apply request resource names query).1.execute store registry =
          (service.apply request resource rearranged query).1.execute store registry) := by
  refine ⟨error_apply_perm hperm query, fun hended => ?_⟩
  have hended' := (error_apply_perm hperm query).1 hended
  rw [error_apply, List.findSome?_eq_none_iff] at hended hended'
  rw [apply_eq_foldl hended, apply_eq_foldl hended']
  have hordering := ordering_foldl_congr request resource horder query
  refine ⟨hordering, fun store registry => ?_⟩
  refine Query.execute_congr ?_ ?_ hordering store registry
  · rw [Query.family_foldl_follow, Query.family_foldl_follow]
  · exact Query.conditions_foldl_follow_perm (hperm.map _) query

end Rearranged

/-- The dearest products of French brands come out the same if the products are ordered first. -/
theorem apply_dearestFrench_rearranged :
    ["texts", "amounts", "sorting"].Perm ["sorting", "texts", "amounts"] ∧
    ["texts", "amounts", "sorting"].filter Catalog.service.isOrder =
      ["sorting", "texts", "amounts"].filter Catalog.service.isOrder ∧
    (Catalog.service.apply (some Catalog.dearestFrench) Catalog.productClass
      ["texts", "amounts", "sorting"] { family := "Product" }).2 = none ∧
    ((Catalog.service.apply (some Catalog.dearestFrench) Catalog.productClass
        ["texts", "amounts", "sorting"] { family := "Product" }).1.execute Catalog.store
          Catalog.families).map Record.id = [Catalog.recordId 4, Catalog.recordId 3] ∧
    ∀ store registry,
      (Catalog.service.apply (some Catalog.dearestFrench) Catalog.productClass
          ["texts", "amounts", "sorting"] { family := "Product" }).1.execute store registry =
        (Catalog.service.apply (some Catalog.dearestFrench) Catalog.productClass
          ["sorting", "texts", "amounts"] { family := "Product" }).1.execute store registry := by
  have hperm : ["texts", "amounts", "sorting"].Perm ["sorting", "texts", "amounts"] := by decide
  have horder : ["texts", "amounts", "sorting"].filter Catalog.service.isOrder =
      ["sorting", "texts", "amounts"].filter Catalog.service.isOrder := by decide
  have hended : (Catalog.service.apply (some Catalog.dearestFrench) Catalog.productClass
      ["texts", "amounts", "sorting"] { family := "Product" }).2 = none := by decide
  exact ⟨hperm, horder, hended, by decide, ((apply_perm hperm horder _).2 hended).2⟩

end AttributeFilter.Service
