import AttributeFilter.Proofs.Filter.Meaning
import AttributeFilter.Proofs.Query.Execution
import AttributeFilter.Sample.Filters

/-!
# Lists as alternatives

A filter on numbers can be sent a list of texts for a property. Sent alone, it finds what the texts
find when each of them is sent alone: the list ends without error if the texts do, a record is found
by it if it is found by one of them, and the records come as they are stored and not as the texts
are listed. That is so whether the texts are compared with the values of the record itself or with
those that it reaches through references, and whether the property is handled or passed over.

## Main definitions

* `Query.applyAlone`: a query after a filter, for a request that gives one parameter.

## Main results

* `Filter.error_applyAlone_eq`: whether a parameter that is sent alone ends in an error, and in
  which, does not depend on its value.
* `Filter.admits_list_iff`: a list asks for what one of its texts asks for.
* `Filter.applyAlone_list`: a list is the union of its texts.
-/

namespace AttributeFilter

/-- A query after a filter for a request that gives one parameter, and the error at which the filter
ended, if it did. -/
def Query.applyAlone (query : Query) (registry : Registry) (filter : Filter)
    (resource property : String) (given : Parameter) : Query × Option Error :=
  query.apply registry filter (some (.ofParameters [(property, given)])) resource

namespace Filter

variable {filter : Filter} {store : Store} {registry : Registry} {resource property : String}
  {given : Parameter} {record : Record} {values : List String}

/-- A parameter that is given alone is all that the filter looks at. -/
theorem extract_alone (filter : Filter) (property : String) (given : Parameter) :
    filter.extract (.ofParameters [(property, given)]) = [(property, given)] :=
  filter.extract_parameters _

theorem error?_planFor_singleton {error : Error} :
    (filter.planFor registry resource [(property, given)]).error? = some error ↔
      filter.step? registry resource property given = .error error := by
  rw [planFor_singleton]
  cases filter.step? registry resource property given <;> simp [Plan.error?]

/-- A filter that is given a value of a shape of use alone admits the records that reach a value
which meets it, if the property is handled and values of its type are. -/
theorem admits_alone_iff (hkept : ¬ filter.Drops property given) :
    filter.Admits store registry (some (.ofParameters [(property, given)])) resource record ↔
      (filter.properties.contains property = true →
        ∃ path, filter.Resolves registry resource property path ∧
          (filter.handles path.target.semantic = true →
            ∃ held, store.Yields record (path.hops.map Attribute.code) path.target.code held ∧
              filter.Meets store registry property given held)) := by
  simp only [Admits, Option.mem_def, Option.some.injEq, forall_eq', extract_alone,
    List.mem_singleton, Prod.mk.injEq, and_imp, forall_eq_apply_imp_iff, forall_eq,
    uses_iff_handles hkept]

/-! ### Lists of numbers -/

section Numbers

variable (hkind : filter.kind = .numeric)

include hkind

theorem meets_list_iff {held : Value} :
    filter.Meets store registry property (.list (values.map .scalar)) held ↔
      ∃ value ∈ values, filter.Meets store registry property (.scalar value) held := by
  simp only [Meets, hkind, Parameter.scalars, List.filterMap_map, Function.comp_def,
    Parameter.text?, List.filterMap_some, List.mem_singleton, exists_eq_left]

/-- A list asks for what one of its texts asks for. Where the property is passed over, neither asks
for anything. -/
theorem admits_list_iff (hvalues : values ≠ []) :
    filter.Admits store registry (some (.ofParameters [(property, .list (values.map .scalar))]))
        resource record ↔
      ∃ value ∈ values,
        filter.Admits store registry (some (.ofParameters [(property, .scalar value)])) resource
          record := by
  -- where nothing is asked for, any of the texts will do
  obtain ⟨first, hfirst⟩ := List.exists_mem_of_ne_nil values hvalues
  have hkept : ¬ filter.Drops property (.list (values.map .scalar)) := by simp [Drops, hkind]
  have hplain : ∀ value, ¬ filter.Drops property (.scalar value) := fun _ => id
  simp only [admits_alone_iff hkept, admits_alone_iff (hplain _), meets_list_iff hkind]
  constructor
  · intro h
    by_cases hcontains : filter.properties.contains property = true
    · obtain ⟨path, hresolves, hmet⟩ := h hcontains
      by_cases hhandles : filter.handles path.target.semantic = true
      · obtain ⟨held, hyields, value, hvalue, hmeets⟩ := hmet hhandles
        exact ⟨value, hvalue, fun _ => ⟨path, hresolves, fun _ => ⟨held, hyields, hmeets⟩⟩⟩
      · exact ⟨first, hfirst, fun _ => ⟨path, hresolves, fun h => absurd h hhandles⟩⟩
    · exact ⟨first, hfirst, fun h => absurd h hcontains⟩
  · rintro ⟨value, hvalue, h⟩ hcontains
    obtain ⟨path, hresolves, hmet⟩ := h hcontains
    refine ⟨path, hresolves, fun hhandles => ?_⟩
    obtain ⟨held, hyields, hmeets⟩ := hmet hhandles
    exact ⟨held, hyields, value, hvalue, hmeets⟩

end Numbers

/-! ### A list and its texts -/

/-- Whether a parameter that is sent alone to a filter on values ends in an error, and in which, does
not depend on its value. -/
theorem error_applyAlone_eq (hkind : filter.kind ≠ .order) (query : Query)
    (first second : Parameter) :
    (query.applyAlone registry filter resource property first).2 =
      (query.applyAlone registry filter resource property second).2 := by
  have hfails : ∀ (given : Parameter) (error : Error),
      (query.applyAlone registry filter resource property given).2 = some error ↔
        filter.step? registry resource property given = .error error := by
    intro given error
    rw [Query.applyAlone, Query.apply, plan_of_ne_order hkind, extract_alone,
      error?_planFor_singleton]
  refine Option.ext fun error => ?_
  rw [hfails, hfails, step?_eq_error_iff, step?_eq_error_iff]

/-- After a list a query finds the records that it finds after one of its texts. -/
theorem mem_execute_applyAlone_list_iff (hkind : filter.kind = .numeric) (hvalues : values ≠ [])
    {query : Query} (hended : (query.applyAlone registry filter resource property
      (.list (values.map .scalar))).2 = none) :
    record ∈ (query.applyAlone registry filter resource property
        (.list (values.map .scalar))).1.execute store registry ↔
      ∃ value ∈ values, record ∈ (query.applyAlone registry filter resource property
        (.scalar value)).1.execute store registry := by
  have hvalued : filter.kind ≠ .order := by
    rw [hkind]
    decide
  calc record ∈ (query.applyAlone registry filter resource property
          (.list (values.map .scalar))).1.execute store registry
      ↔ record ∈ query.execute store registry ∧ ∃ value ∈ values,
          filter.Admits store registry (some (.ofParameters [(property, .scalar value)]))
            resource record :=
        (Query.mem_execute_apply_iff hvalued hended).trans
          (and_congr_right fun _ => admits_list_iff hkind hvalues)
    _ ↔ ∃ value ∈ values, record ∈ query.execute store registry ∧
          filter.Admits store registry (some (.ofParameters [(property, .scalar value)]))
            resource record :=
        ⟨fun ⟨hrecord, value, hvalue, h⟩ => ⟨value, hvalue, hrecord, h⟩,
          fun ⟨value, hvalue, hrecord, h⟩ => ⟨hrecord, value, hvalue, h⟩⟩
    _ ↔ ∃ value ∈ values, record ∈ (query.applyAlone registry filter resource property
          (.scalar value)).1.execute store registry :=
        exists_congr fun value => and_congr_right fun _ => (Query.mem_execute_apply_iff hvalued
          ((error_applyAlone_eq hvalued query _ _).trans hended)).symm

/-- **A list is the union of its texts.** A filter on numbers is sent a list of texts for a property,
and nothing else. It ends without error if it does for one of the texts sent alone, which is as much
as for each of them. The query then finds the records that it finds after one of the texts, and if
it has no order clauses, it finds them in the order of the store. -/
theorem applyAlone_list (hkind : filter.kind = .numeric) (hvalues : values ≠ [])
    (resource property : String) (query : Query) (store : Store) :
    let listed := query.applyAlone registry filter resource property (.list (values.map .scalar))
    let single := fun value => query.applyAlone registry filter resource property (.scalar value)
    (listed.2 = none ↔ ∃ value ∈ values, (single value).2 = none) ∧
    (listed.2 = none ↔ ∀ value ∈ values, (single value).2 = none) ∧
    (listed.2 = none →
      (∀ record, record ∈ listed.1.execute store registry ↔
        ∃ value ∈ values, record ∈ (single value).1.execute store registry) ∧
      (query.ordering = [] → listed.1.execute store registry = store.records.filter fun record =>
        ∃ value ∈ values, record ∈ (single value).1.execute store registry)) := by
  intro listed single
  have hvalued : filter.kind ≠ .order := by
    rw [hkind]
    decide
  have hsame : ∀ value, (single value).2 = listed.2 :=
    fun value => error_applyAlone_eq hvalued query _ _
  obtain ⟨first, hfirst⟩ := List.exists_mem_of_ne_nil values hvalues
  refine ⟨?_, ?_, fun hended => ?_⟩
  · simp only [hsame]
    exact ⟨fun h => ⟨first, hfirst, h⟩, fun ⟨_, _, h⟩ => h⟩
  · simp only [hsame]
    exact ⟨fun h _ _ => h, fun h => h first hfirst⟩
  · have hunion : ∀ record, record ∈ listed.1.execute store registry ↔
        ∃ value ∈ values, record ∈ (single value).1.execute store registry :=
      fun _ => mem_execute_applyAlone_list_iff hkind hvalues hended
    refine ⟨hunion, fun hunordered => ?_⟩
    have hordering : listed.1.ordering = [] :=
      (filter.apply_eq_ok hvalued (Prod.ext rfl hended)).2.1.trans hunordered
    exact Query.execute_eq_filter_of_ordering_nil hordering hunion

def prices : Filter where
  kind := .numeric
  types := FilterKind.numeric.defaultTypes
  properties := .ofList [("price", none)]
  family := some "Product"
  strategies_exist := by decide

/-- Texts for prices, the lowest of which no product has. -/
def offers : List String :=
  ["12", "7.0", "89.50"]

def offered (given : Parameter) : List Uuid :=
  ((Query.applyAlone { family := "Product" } Catalog.families prices Catalog.productClass "price"
    given).1.execute Catalog.store Catalog.families).map Record.id

/-- For a list of prices come the products that come for each of them, as they are stored. -/
theorem applyAlone_list_offers :
    prices.kind = .numeric ∧ offers ≠ [] ∧
    (∀ value ∈ offers, (Query.applyAlone { family := "Product" } Catalog.families prices
      Catalog.productClass "price" (.scalar value)).2 = none) ∧
    (Query.applyAlone { family := "Product" } Catalog.families prices Catalog.productClass "price"
        (.list (offers.map .scalar))).1.execute Catalog.store Catalog.families =
      Catalog.store.records.filter (fun record => ∃ value ∈ offers,
        record ∈ (Query.applyAlone { family := "Product" } Catalog.families prices
          Catalog.productClass "price" (.scalar value)).1.execute Catalog.store Catalog.families) ∧
    offers.map (fun value => offered (.scalar value)) =
      [[Catalog.recordId 5], [], [Catalog.recordId 4]] ∧
    offered (.list (offers.map .scalar)) = [4, 5].map Catalog.recordId := by
  have hnumeric : prices.kind = .numeric := rfl
  have hoffers : offers ≠ [] := by decide
  have hsingle : ∀ value ∈ offers, (Query.applyAlone { family := "Product" } Catalog.families
      prices Catalog.productClass "price" (.scalar value)).2 = none := by decide +kernel
  obtain ⟨-, hended, hfound⟩ := @applyAlone_list prices Catalog.families offers hnumeric hoffers
    Catalog.productClass "price" { family := "Product" } Catalog.store
  exact ⟨hnumeric, hoffers, hsingle, (hfound (hended.2 hsingle)).2 rfl, by decide +kernel,
    by decide +kernel⟩

end Filter

end AttributeFilter
