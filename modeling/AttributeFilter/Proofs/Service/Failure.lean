import AttributeFilter.Proofs.Filter.Failure
import AttributeFilter.Proofs.Service.Runs

/-!
# Runs that end at an error

A run of filters ends at the first filter that is missing or fails. The filters before it have been
applied without error, those after it not at all, and of its own it has added clauses at most.

## Main definitions

* `Service.EndsAt`: how a run ends at an error.

## Main results

* `Service.exists_failing_of_apply`: the filter that a run ends at.
* `Service.failing_apply`: what a failing filter and a failing run leave behind.
-/

namespace AttributeFilter.Service

variable {service : Service} {request : Option Request} {resource : String}

/-- A run of filters ends at an error: the filters before a name have been applied without error,
and under that name there is no filter, or one that fails and leaves the query behind. -/
def EndsAt (service : Service) (request : Option Request) (resource : String)
    (names : List String) (error : Error) (query final : Query) : Prop :=
  ∃ before name after reached, names = before ++ name :: after ∧
    service.apply request resource before query = (reached, none) ∧
    (service.getFilter name = .error error ∧ final = reached ∨
      ∃ filter, service.getFilter name = .ok filter ∧
        reached.apply service.registry filter request resource = (final, some error) ∧
        filter.LeavesBehind service.registry request resource error reached final)

/-- A run that ends at an error has applied the filters before one without error, and then this
one. -/
theorem exists_failing_of_apply {names : List String} {query final : Query} {error : Error}
    (h : service.apply request resource names query = (final, some error)) :
    ∃ before name after reached, names = before ++ name :: after ∧
      service.apply request resource before query = (reached, none) ∧
      service.apply request resource [name] reached = (final, some error) := by
  have herror : names.findSome? (service.errorOf? request resource) = some error := by
    rw [← error_apply names query, h]
  obtain ⟨before, name, after, rfl, hname, hbefore⟩ := List.findSome?_eq_some_iff.1 herror
  have hreached := apply_eq_foldl hbefore query
  refine ⟨before, name, after, _, rfl, hreached, ?_⟩
  rw [apply_append, hreached] at h
  simp only [apply_cons, hname] at h ⊢
  exact h

/-- A filter applied by its name fails if there is none, or if it does so itself. -/
theorem apply_singleton_eq_error {name : String} {query final : Query} {error : Error}
    (h : service.apply request resource [name] query = (final, some error)) :
    service.getFilter name = .error error ∧ final = query ∨
      ∃ filter, service.getFilter name = .ok filter ∧
        query.apply service.registry filter request resource = (final, some error) := by
  rw [apply] at h
  split at h
  · next other hmissing =>
    cases h
    exact .inl ⟨hmissing, rfl⟩
  · next filter hfilter =>
    refine .inr ⟨filter, hfilter, ?_⟩
    split at h
    · next reached other hfailing =>
      cases h
      exact hfailing
    · cases h

theorem endsAt_of_apply_eq_error {names : List String} {query final : Query} {error : Error}
    (h : service.apply request resource names query = (final, some error)) :
    service.EndsAt request resource names error query final := by
  obtain ⟨before, name, after, reached, hnames, hbefore, hname⟩ := exists_failing_of_apply h
  refine ⟨before, name, after, reached, hnames, hbefore, ?_⟩
  rcases apply_singleton_eq_error hname with hmissing | ⟨filter, hfilter, hfails⟩
  · exact .inl hmissing
  · exact .inr ⟨filter, hfilter, hfails, Filter.leavesBehind_of_apply_eq_error hfails⟩

/-- **What failure leaves behind.** A filter that ends at an error leaves the conditions of the
query alone, and its order too unless it is an order filter; then the clauses of the entries before
the failing one are added. A run of filters can be cut in two: the second part goes on with the
query that the first one leaves, if that ends without error. So a run that ends at an error leaves
the query that the filters before the failing one make, changed by the clauses of the failing one
only. -/
theorem failing_apply (service : Service) (request : Option Request) (resource : String) :
    (∀ registry (filter : Filter) (query final : Query) error,
      query.apply registry filter request resource = (final, some error) →
        filter.LeavesBehind registry request resource error query final) ∧
    (∀ first more query, service.apply request resource (first ++ more) query =
      match service.apply request resource first query with
      | (reached, some error) => (reached, some error)
      | (reached, none) => service.apply request resource more reached) ∧
    ∀ names query final error,
      service.apply request resource names query = (final, some error) →
        service.EndsAt request resource names error query final := by
  refine ⟨fun registry filter query final error h => ?_, fun first more query => ?_,
    fun names query final error h => ?_⟩
  · exact Filter.leavesBehind_of_apply_eq_error h
  · exact apply_append service request resource first more query
  · exact endsAt_of_apply_eq_error h

/-- A run that orders the catalog by price and then by the stale colour ends there. It has ordered
by price, and attached the condition of the filter before. -/
theorem failing_apply_byColour :
    ∃ final, Catalog.service.apply (some Catalog.byColour) Catalog.productClass
        ["texts", "sorting", "amounts"] { family := "Product" } =
          (final, some (.unknownAttribute "Product" "colour")) ∧
      final.ordering = [{
        target := { hops := [], family := "Product", code := "price" }
        direction := .ascending }] ∧
      final.conditions.length = 1 ∧
      Catalog.service.EndsAt (some Catalog.byColour) Catalog.productClass
        ["texts", "sorting", "amounts"] (.unknownAttribute "Product" "colour")
        { family := "Product" } final := by
  refine ⟨_, rfl, by decide, by decide, ?_⟩
  exact (failing_apply Catalog.service (some Catalog.byColour) Catalog.productClass).2.2 _ _ _ _ rfl

end AttributeFilter.Service
