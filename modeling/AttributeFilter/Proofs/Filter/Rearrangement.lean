import AttributeFilter.Proofs.Filter.Meaning
import AttributeFilter.Proofs.Query.Execution
import AttributeFilter.Proofs.Query.Following
import AttributeFilter.Sample.Filters

/-!
# Parameters in another order

A filter looks at the parameters of a request one after the other and ends at the first error, so
their order decides at which error it ends, and in which order the tests stand in the condition that
it attaches. It decides nothing else: a filter on values ends without error for one order if it does
for the other, and the query then finds the same records.

## Main results

* `Filter.mem_tests_planFor_of_subset`: more parameters give more tests.
* `Filter.apply_rearranged`: the order of parameters does not matter to a filter on values.
-/

namespace AttributeFilter.Filter

variable {filter : Filter} {registry : Registry} {resource : String} {first second : Parameters}

/-- A plan for more parameters has the tests of a plan for some of them, if both conclude. -/
theorem mem_tests_planFor_of_subset (hsubset : first ⊆ second)
    (hfirst : (filter.planFor registry resource first).ending = .concluded)
    (hsecond : (filter.planFor registry resource second).ending = .concluded)
    {entry : AttributePath × Test} (hentry : entry ∈ (filter.planFor registry resource first).tests) :
    entry ∈ (filter.planFor registry resource second).tests := by
  obtain ⟨property, given, hmem, hasked⟩ := (mem_tests_planFor_iff hfirst).1 hentry
  exact (mem_tests_planFor_iff hsecond).2 ⟨property, given, hsubset hmem, hasked⟩

/-- Parameters in another order are all looked at without error if the parameters are. -/
theorem error?_planFor_perm (hperm : first.Perm second) :
    (filter.planFor registry resource first).error? = none ↔
      (filter.planFor registry resource second).error? = none := by
  simp only [error?_planFor_eq_none_iff, hperm.mem_iff]

theorem admits_follow_of_perm (hperm : first.Perm second) {query : Query} {store : Store}
    {held : Registry} {record : Record}
    (h : (query.follow (filter.planFor registry resource first)).admits store held record = true) :
    (query.follow (filter.planFor registry resource second)).admits store held record = true := by
  obtain ⟨hquery, htests⟩ := Query.admits_follow_iff.1 h
  refine Query.admits_follow_iff.2 ⟨hquery, fun hsecond entry hentry => ?_⟩
  have hfirst : (filter.planFor registry resource first).ending = .concluded := by
    refine concluded_of_error?_eq_none ((error?_planFor_perm hperm).2 ?_)
    rw [Plan.error?, hsecond]
  exact htests hfirst entry (mem_tests_planFor_of_subset hperm.symm.subset hsecond hfirst hentry)

/-- **The order of parameters does not matter to a filter on values.** Two requests give the same
parameters in different orders. The filter ends without error for one of them if it does for the
other, and the query finds the same records in the same order after it. -/
theorem apply_rearranged (hkind : filter.kind ≠ .order) (hperm : first.Perm second)
    (hfirst : (Keyed.keys first).Nodup) (hsecond : (Keyed.keys second).Nodup) (query : Query) :
    ((query.apply registry filter (some (.parameters first hfirst)) resource).2 = none ↔
      (query.apply registry filter (some (.parameters second hsecond)) resource).2 = none) ∧
    ∀ store held,
      (query.apply registry filter (some (.parameters first hfirst)) resource).1.execute store held =
        (query.apply registry filter (some (.parameters second hsecond)) resource).1.execute
          store held := by
  simp only [Query.apply, plan_of_ne_order hkind, extract_parameters]
  refine ⟨error?_planFor_perm hperm, fun store held => ?_⟩
  refine Query.execute_of_admits_iff ?_ ?_ fun record => ?_
  · rw [Query.family_follow, Query.family_follow]
  · rw [Query.ordering_follow, Query.ordering_follow, Query.clausesOf, Query.clausesOf,
      orders_planFor hkind, orders_planFor hkind]
  · exact ⟨admits_follow_of_perm hperm, admits_follow_of_perm hperm.symm⟩

/-- A search for products by a part of their name, and by the country of their brand. -/
def namesByCountry : Filter where
  kind := .search
  types := FilterKind.search.defaultTypes
  properties := .ofList [("name", some "partial"), ("brand.country", none)]
  family := some "Product"
  strategies_exist := by decide

/-- Parameters that ask for a letter in the name and for the country of the brand. The page is no
property of the filter. -/
def countryLast : Parameters :=
  [("name", .scalar "o"), ("page", .scalar "2"), ("brand.country", .scalar "FR")]

/-- The same parameters, with the country in front. -/
def countryFirst : Parameters :=
  [("brand.country", .scalar "FR"), ("name", .scalar "o"), ("page", .scalar "2")]

/-- The same French products are found, whether the country is asked for first or last. -/
theorem apply_namesByCountry_rearranged :
    namesByCountry.kind ≠ .order ∧ countryLast.Perm countryFirst ∧
    ∃ (hlast : (Keyed.keys countryLast).Nodup) (hfirst : (Keyed.keys countryFirst).Nodup),
      let last := (Query.apply { family := "Product" } Catalog.families namesByCountry
        (some (.parameters countryLast hlast)) Catalog.productClass)
      let first := (Query.apply { family := "Product" } Catalog.families namesByCountry
        (some (.parameters countryFirst hfirst)) Catalog.productClass)
      last.2 = none ∧ first.2 = none ∧
        (∀ store held, last.1.execute store held = first.1.execute store held) ∧
        (first.1.execute Catalog.store Catalog.families).map Record.id =
          [3, 4].map Catalog.recordId := by
  have hkind : namesByCountry.kind ≠ .order := by decide
  have hperm : countryLast.Perm countryFirst := List.perm_append_singleton _ [_, _]
  obtain ⟨hended, hfound⟩ := @apply_rearranged namesByCountry Catalog.families Catalog.productClass
    countryLast countryFirst hkind hperm (by decide) (by decide) { family := "Product" }
  exact ⟨hkind, hperm, by decide, by decide, rfl, hended.1 rfl, hfound, by decide +kernel⟩

end AttributeFilter.Filter
