import AttributeFilter.Proofs.Filter.ExactSearch
import AttributeFilter.Proofs.Query.Identification
import AttributeFilter.Proofs.Uuid

/-!
# Exact searches for references

A property that leads to references is advertised for exact searches by an identifier, both as a
text and as a list of texts. A text in a list finds the records that refer to what it names: it is
the identifier that a record is stored under, in any way of writing it, or it stands for the value
at the identifier of the record's family. A text that is sent as it is becomes a pattern, and a
pattern does not look at the record referred to. It is matched against the canonical text of the
identifier in a reference, and a list of references has no text to be matched.

## Main definitions

* `Value.WrittenAs`: a value is written as a text that can be searched for.
* `Store.ReachesNamed`, `Store.ReachesWritten`: a record reaches a reference that a text names, or a
  value that is written as the text.
* `Query.FindsNamed`: a query that finds those records which reach a named reference as well.
* `Query.WritesNames`: the records that reach a named reference are those that reach a value which
  is written as the text, or is equal to it.

## Main results

* `Value.subject?_eq_some_iff_of_isReference`: the only text of a reference.
* `Filter.reference_search_forms`: what both forms find, and when it is what the text names.
-/

namespace AttributeFilter

/-- A reference to a single record has the canonical text of the identifier and no other, and a list
of references has none. -/
theorem Value.subject?_eq_some_iff_of_isReference {held : Value} (h : held.IsReference)
    {text : String} :
    held.subject? = some text ↔ ∃ id, held = .reference id ∧ String.ofList id.text = text := by
  cases h with
  | single id => simp [subject?]
  | several ids => simp [subject?]

/-- A value is written as the text, and the text is short enough to be searched for as a pattern. -/
structure Value.WrittenAs (held : Value) (text : String) : Prop where
  compiles : Like.compiles text = true
  subject_eq : held.subject? = some text

/-- A reference is written as the canonical text of its identifier, which is short. -/
theorem Value.writtenAs_iff_of_isReference {held : Value} (h : held.IsReference) {text : String} :
    held.WrittenAs text ↔ ∃ id, held = .reference id ∧ String.ofList id.text = text := by
  rw [← subject?_eq_some_iff_of_isReference h]
  refine ⟨WrittenAs.subject_eq, fun hsubject => ⟨?_, hsubject⟩⟩
  obtain ⟨id, -, rfl⟩ := (subject?_eq_some_iff_of_isReference h).1 hsubject
  refine Like.compiles_of_length_le ?_
  rw [String.toList_ofList, Uuid.length_text]
  decide

/-- The values that an exact pattern without wildcards accepts are those that are written so. -/
theorem Test.passes_like_iff_of_plain (store : Store) (registry : Registry) {value : String}
    (hplain : SearchStrategy.Plain value) (held : Value) :
    (like (SearchStrategy.exact.pattern value)).passes store registry held = true ↔
      held.WrittenAs value := by
  simp only [passes, SearchStrategy.pattern, hplain.bare_eq, Option.any_eq_true, Like.finds_iff,
    SearchStrategy.matches_iff_eq_of_literal hplain.literal]
  constructor
  · rintro ⟨text, hsubject, hcompiles, rfl⟩
    exact ⟨hcompiles, hsubject⟩
  · exact fun h => ⟨value, h.subject_eq, h.compiles, rfl⟩

/-! ### Named and written references -/

namespace Store

variable {store : Store} {registry : Registry} {value : String} {record : Record} {target : Target}

/-- A record reaches a reference at the target that the text names. -/
def ReachesNamed (store : Store) (registry : Registry) (value : String) (record : Record)
    (target : Target) : Prop :=
  ∃ held, store.Yields record target.hops target.code held ∧
    ∃ id ∈ held.targets, store.Names registry value id

/-- A record reaches a value at the target that is written as the text. -/
def ReachesWritten (store : Store) (value : String) (record : Record) (target : Target) : Prop :=
  ∃ held, store.Yields record target.hops target.code held ∧ held.WrittenAs value

/-- A value that refers to a named record is equal to the text. -/
theorem denotes_of_names {held : Value} {id : Uuid} (hid : id ∈ held.targets)
    (hnames : store.Names registry value id) : store.Denotes registry value held := by
  have hreference : held.IsReference := Classical.byContradiction fun hplain => by
    rw [Value.targets_eq_nil hplain] at hid
    exact List.not_mem_nil hid
  exact (denotes_iff_of_isReference hreference).2 ⟨id, hid, hnames⟩

/-- The canonical text of an identifier names the record that is stored under it. -/
theorem names_text {id : Uuid} (hplain : SearchStrategy.Plain value)
    (htext : String.ofList id.text = value) : store.Names registry value id := by
  refine .inl ?_
  rw [hplain.trimmed, ← htext, String.toList_ofList, Uuid.ofText?_text]

/-- What a reference is written as names it. -/
theorem exists_names_of_writtenAs {held : Value} (hplain : SearchStrategy.Plain value)
    (hreference : held.IsReference) (hwritten : held.WrittenAs value) :
    ∃ id ∈ held.targets, store.Names registry value id := by
  obtain ⟨id, rfl, htext⟩ := (Value.writtenAs_iff_of_isReference hreference).1 hwritten
  exact ⟨id, List.mem_singleton_self id, names_text hplain htext⟩

end Store

namespace Query

variable {query : Query} {store : Store} {registry : Registry} {target : Target} {value : String}

def FindsReferences (query : Query) (store : Store) (registry : Registry) (target : Target) :
    Prop :=
  ∀ record ∈ query.execute store registry, ∀ held,
    store.Yields record target.hops target.code held → held.IsReference

/-- The next query finds those records that the query finds and that reach a reference which the
text names. -/
def FindsNamed (query next : Query) (store : Store) (registry : Registry) (target : Target)
    (value : String) : Prop :=
  ∀ record, record ∈ next.execute store registry ↔
    record ∈ query.execute store registry ∧ store.ReachesNamed registry value record target

/-- Those of the records found that reach a named reference reach a value that is written as the
text. If they reach a value of another kind that is written so or equal to the text, they reach a
named reference as well. -/
structure WritesNames (query : Query) (store : Store) (registry : Registry) (target : Target)
    (value : String) : Prop where
  written : ∀ record ∈ query.execute store registry,
    store.ReachesNamed registry value record target → store.ReachesWritten value record target
  named : ∀ record ∈ query.execute store registry, ∀ held,
    store.Yields record target.hops target.code held → ¬ held.IsReference →
      held.WrittenAs value ∨ held.matchesText value = true →
        store.ReachesNamed registry value record target

def searchText (query : Query) (target : Target) (value : String) : Query :=
  query.attach (.all [(Test.like (SearchStrategy.exact.pattern value)).toPredicate target])

def searchList (query : Query) (target : Target) (value : String) : Query :=
  query.attach (.all [(Test.equals
    (.anyOf ((Parameter.list [.scalar value]).scalars.map SearchStrategy.bare))).toPredicate
      target])

variable (hplain : SearchStrategy.Plain value)

include hplain

/-- A text finds what is written so. -/
theorem mem_execute_searchText {record : Record} :
    record ∈ (query.searchText target value).execute store registry ↔
      record ∈ query.execute store registry ∧ store.ReachesWritten value record target := by
  simp only [searchText, mem_execute_attach_test, Store.ReachesWritten,
    Test.passes_like_iff_of_plain store registry hplain]

/-- A list of the text finds what is equal to it. -/
theorem mem_execute_searchList {record : Record} :
    record ∈ (query.searchList target value).execute store registry ↔
      record ∈ query.execute store registry ∧
        ∃ held, store.Yields record target.hops target.code held ∧
          store.Denotes registry value held := by
  simp only [searchList, mem_execute_attach_test, Test.passes_anyOf_singleton_iff, hplain.bare_eq]

/-- If there are only references, a text finds the identifier as it is written. -/
theorem mem_execute_searchText_of_findsReferences
    (hreferences : query.FindsReferences store registry target) {record : Record} :
    record ∈ (query.searchText target value).execute store registry ↔
      record ∈ query.execute store registry ∧
        ∃ id, store.Yields record target.hops target.code (.reference id) ∧
          String.ofList id.text = value := by
  rw [mem_execute_searchText hplain]
  refine and_congr_right fun hfound => ?_
  constructor
  · rintro ⟨held, hyields, hwritten⟩
    obtain ⟨id, rfl, htext⟩ := (Value.writtenAs_iff_of_isReference
      (hreferences record hfound held hyields)).1 hwritten
    exact ⟨id, hyields, htext⟩
  · rintro ⟨id, hyields, htext⟩
    exact ⟨.reference id, hyields,
      (Value.writtenAs_iff_of_isReference (.single id)).2 ⟨id, rfl, htext⟩⟩

/-- A list of the text finds what it names, if whoever reaches another value that it stands for
reaches a named reference as well. -/
theorem findsNamed_searchList
    (hnamed : ∀ record ∈ query.execute store registry, ∀ held,
      store.Yields record target.hops target.code held → ¬ held.IsReference →
        held.matchesText value = true → store.ReachesNamed registry value record target) :
    query.FindsNamed (query.searchList target value) store registry target value := by
  intro record
  rw [mem_execute_searchList hplain]
  refine and_congr_right fun hfound => ⟨?_, ?_⟩
  · rintro ⟨held, hyields, hdenotes⟩
    by_cases hreference : held.IsReference
    · exact ⟨held, hyields, (Store.denotes_iff_of_isReference hreference).1 hdenotes⟩
    · exact hnamed record hfound held hyields hreference
        ((Store.denotes_iff_of_not_isReference hreference).1 hdenotes)
  · rintro ⟨held, hyields, id, hid, hnames⟩
    exact ⟨held, hyields, Store.denotes_of_names hid hnames⟩

/-- If the names of the references are what they are written as, a text finds what it names. -/
theorem WritesNames.findsNamed_searchText (h : query.WritesNames store registry target value) :
    query.FindsNamed (query.searchText target value) store registry target value := by
  intro record
  rw [mem_execute_searchText hplain]
  refine and_congr_right fun hfound => ⟨?_, h.written record hfound⟩
  -- a reference is named by what it is written as; only other values need the condition on them
  rintro ⟨held, hyields, hwritten⟩
  by_cases hreference : held.IsReference
  · exact ⟨held, hyields, Store.exists_names_of_writtenAs hplain hreference hwritten⟩
  · exact h.named record hfound held hyields hreference (.inl hwritten)

/-- A text finds what it names, and a list of it finds the same, exactly if the names of the
references are what they are written as. -/
theorem findsNamed_searchText_iff :
    (query.FindsNamed (query.searchText target value) store registry target value ∧
      (query.searchText target value).execute store registry =
        (query.searchList target value).execute store registry) ↔
      query.WritesNames store registry target value := by
  constructor
  · rintro ⟨hnamed, hsame⟩
    refine ⟨fun record hfound hreaches => ?_, fun record hfound held hyields _ hequal => ?_⟩
    · exact ((mem_execute_searchText hplain).1 ((hnamed record).2 ⟨hfound, hreaches⟩)).2
    · refine ((hnamed record).1 ?_).2
      cases hequal with
      | inl hwritten => exact (mem_execute_searchText hplain).2 ⟨hfound, held, hyields, hwritten⟩
      | inr hmatches =>
        rw [hsame]
        exact (mem_execute_searchList hplain).2 ⟨hfound, held, hyields, .inl hmatches⟩
  · intro h
    have htext := h.findsNamed_searchText hplain
    -- both find what the text names, so they find the same, and in the same order
    have hlist := findsNamed_searchList hplain fun record hfound held hyields hother hmatches =>
      h.named record hfound held hyields hother (.inr hmatches)
    refine ⟨htext, execute_attach_eq_of_mem_iff fun record => ?_⟩
    exact (htext record).trans (hlist record).symm

end Query

namespace Filter

/-- A search filter supports references, and searches a property exactly that leads to them. -/
structure SearchesReferences (filter : Filter) (registry : Registry) (resource property : String)
    (path : AttributePath) : Prop extends
    filter.SearchesExactly registry resource property path where
  semantic_eq : path.target.semantic = .entity
  supported : .entity ∈ filter.types

/-- What becomes of a query when a reference is searched for by a text, and what when by a list of
it. -/
structure ReferenceForms (store : Store) (registry : Registry) (target : Target) (value : String)
    (query single listed : Query) : Prop where
  single_iff : ∀ record, record ∈ single.execute store registry ↔
    record ∈ query.execute store registry ∧ store.ReachesWritten value record target
  listed_iff : ∀ record, record ∈ listed.execute store registry ↔
    record ∈ query.execute store registry ∧
      ∃ held, store.Yields record target.hops target.code held ∧ store.Denotes registry value held
  single_iff_of_references : query.FindsReferences store registry target →
    ∀ record, record ∈ single.execute store registry ↔
      record ∈ query.execute store registry ∧
        ∃ id, store.Yields record target.hops target.code (.reference id) ∧
          String.ofList id.text = value
  listed_of_references : query.FindsReferences store registry target →
    query.FindsNamed listed store registry target value
  named_iff : (query.FindsNamed single store registry target value ∧
      single.execute store registry = listed.execute store registry) ↔
    query.WritesNames store registry target value

variable {filter : Filter} {registry : Registry} {resource property value : String}
  {path : AttributePath} {store : Store} {query : Query}

/-- **The two forms of an exact search for references.** Let a property lead to references, and let
a text have neither wildcards in it nor blanks around it. Searched for, the text finds the records
that reach a value which is written so: a single reference with this canonical text of its
identifier. A list of the text finds those that reach a value which is equal to it: a reference that
it names. That the text finds exactly what it names, and the list the same, holds if the records
found before reach a named reference where they reach what is written so, and only then. -/
theorem reference_search_forms {one list : Request}
    (hsearch : filter.SearchesReferences registry resource property path)
    (hplain : SearchStrategy.Plain value)
    (hone : filter.extract one = [(property, .scalar value)])
    (hlist : filter.extract list = [(property, .list [.scalar value])]) :
    ∃ single listed,
      query.apply registry filter (some one) resource = (single, none) ∧
      query.apply registry filter (some list) resource = (listed, none) ∧
      ReferenceForms store registry path.toTarget value query single listed := by
  have hhandles : filter.handles path.target.semantic = true :=
    handles_iff.2 ⟨hsearch.semantic_eq ▸ hsearch.supported, hsearch.semantic_eq ▸ nofun⟩
  refine ⟨query.searchText path.toTarget value, query.searchList path.toTarget value,
    hsearch.apply_of_handles hone hhandles id (.pattern hsearch.kind_eq hsearch.strategy_eq) query,
    hsearch.apply_of_handles hlist hhandles (fun h => h.2 hsearch.strategy_eq)
      (.texts hsearch.kind_eq hsearch.strategy_eq) query, ?_⟩
  exact
    { single_iff := fun _ => Query.mem_execute_searchText hplain
      listed_iff := fun _ => Query.mem_execute_searchList hplain
      single_iff_of_references := fun hreferences _ =>
        Query.mem_execute_searchText_of_findsReferences hplain hreferences
      listed_of_references := fun hreferences =>
        Query.findsNamed_searchList hplain fun record hfound held hyields hother =>
          absurd (hreferences record hfound held hyields) hother
      named_iff := Query.findsNamed_searchText_iff hplain }

/-! ### Reviews of shoes -/

def reviewClass : String := "App\\Entity\\Review"

/-- Products with an article number, and their reviews. There is no fault in the settings, so the
registry is not empty. -/
def reviewFamilies : Registry :=
  match Registry.build [
      ("Product", {
        dataClass := Catalog.productClass
        identifier := some "sku"
        fields := [("sku", { storage := .shortText })] }),
      ("Review", {
        dataClass := reviewClass
        fields := [
          ("product", AttributeSettings.relatedTo { storage := .entityReference } ["Product"])] })]
  with
  | .ok registry => registry
  | .error _ => { families := [], codes_nodup := List.nodup_nil }

def reviewsByProduct : Filter where
  kind := .search
  types := [.entity]
  properties := .ofList [("product", none)]
  family := none
  strategies_exist := by decide

/-- A product of which nothing is known but its article number. -/
def numbered (index : Nat) (sku : String) : Record where
  id := Catalog.recordId index
  family := "Product"
  values := [("sku", .text sku)]

def reviewOf (index : Nat) (product : Value) : Record where
  id := Catalog.recordId index
  family := "Review"
  values := [("product", product)]

/-- A shoe and a boot, with a review of each. The review of the boot has a list of products. -/
def reviewed : Store :=
  Store.empty.insertAll [numbered 0 "SHOE-1", numbered 1 "BOOT-1",
    reviewOf 2 (.reference (Catalog.recordId 0)), reviewOf 3 (.references [Catalog.recordId 1])]

def reviews : Query where
  family := "Review"

def askedFor (product : Parameter) : Request :=
  .ofParameters [("product", product)]

def foundReviews (product : Parameter) : List Uuid :=
  ((reviews.apply reviewFamilies reviewsByProduct (some (askedFor product)) reviewClass).1.execute
    reviewed reviewFamilies).map Record.id

theorem extract_askedFor (product : Parameter) :
    reviewsByProduct.extract (askedFor product) = [("product", product)] :=
  rfl

/-- Reviews can be searched for by their product, which is a reference. -/
theorem exists_path_reviewsByProduct :
    ∃ path, reviewsByProduct.SearchesReferences reviewFamilies reviewClass "product" path ∧
      path.target.isReference = true ∧
      path.toTarget = { hops := [], family := "Review", code := "product" } := by
  have hknown : ((reviewFamilies.resolve reviewsByProduct.family reviewClass).toOption.bind
      fun family => (reviewFamilies.path family "product").toOption).map
        (fun path => (path.target.semantic, path.target.isReference, path.toTarget)) =
      some (.entity, true, { hops := [], family := "Review", code := "product" }) := by
    decide +kernel
  obtain ⟨path, hresolves, hparts⟩ := exists_resolves hknown
  obtain ⟨hsemantic, hparts⟩ := Prod.mk.inj hparts
  obtain ⟨hreference, htarget⟩ := Prod.mk.inj hparts
  exact ⟨path, ⟨⟨rfl, rfl, by decide, hresolves⟩, hsemantic, by decide⟩, hreference, htarget⟩

/-- The review of the shoe is found in both forms by the identifier of the shoe. -/
theorem reviews_found_by_product :
    ∃ path, reviewsByProduct.SearchesReferences reviewFamilies reviewClass "product" path ∧
      SearchStrategy.Plain "5a3c1e70-0b1d-4c8e-9f20-000000000000" ∧
      (∃ single listed,
        reviews.apply reviewFamilies reviewsByProduct
            (some (askedFor (.scalar "5a3c1e70-0b1d-4c8e-9f20-000000000000"))) reviewClass =
          (single, none) ∧
        reviews.apply reviewFamilies reviewsByProduct
            (some (askedFor (.list [.scalar "5a3c1e70-0b1d-4c8e-9f20-000000000000"])))
            reviewClass = (listed, none) ∧
        ReferenceForms reviewed reviewFamilies path.toTarget
          "5a3c1e70-0b1d-4c8e-9f20-000000000000" reviews single listed) ∧
      foundReviews (.scalar "5a3c1e70-0b1d-4c8e-9f20-000000000000") = [Catalog.recordId 2] ∧
      foundReviews (.list [.scalar "5a3c1e70-0b1d-4c8e-9f20-000000000000"]) =
        [Catalog.recordId 2] := by
  obtain ⟨path, hsearch, -, -⟩ := exists_path_reviewsByProduct
  have hplain : SearchStrategy.Plain "5a3c1e70-0b1d-4c8e-9f20-000000000000" :=
    ⟨by decide, by decide⟩
  exact ⟨path, hsearch, hplain,
    reference_search_forms hsearch hplain (extract_askedFor _) (extract_askedFor _),
    by decide +kernel, by decide +kernel⟩

/-- The article number names the shoe, but only the list of it finds the review. The same goes for
the identifier in capitals, and for the identifier of the boot, whose review has a list. -/
theorem reviews_missed_by_text :
    (∃ path single, reviewsByProduct.SearchesReferences reviewFamilies reviewClass "product" path ∧
      path.target.isReference = true ∧ SearchStrategy.Plain "SHOE-1" ∧
      reviews.apply reviewFamilies reviewsByProduct (some (askedFor (.scalar "SHOE-1")))
        reviewClass = (single, none) ∧
      ¬ reviews.FindsNamed single reviewed reviewFamilies path.toTarget "SHOE-1") ∧
    (foundReviews (.scalar "SHOE-1") = [] ∧
      foundReviews (.list [.scalar "SHOE-1"]) = [Catalog.recordId 2]) ∧
    (foundReviews (.scalar "5A3C1E70-0B1D-4C8E-9F20-000000000000") = [] ∧
      foundReviews (.list [.scalar "5A3C1E70-0B1D-4C8E-9F20-000000000000"]) =
        [Catalog.recordId 2]) ∧
    foundReviews (.scalar "5a3c1e70-0b1d-4c8e-9f20-000000000001") = [] ∧
    foundReviews (.list [.scalar "5a3c1e70-0b1d-4c8e-9f20-000000000001"]) =
      [Catalog.recordId 3] := by
  obtain ⟨path, hsearch, hreference, htarget⟩ := exists_path_reviewsByProduct
  refine ⟨⟨path, _, hsearch, hreference, ⟨by decide, by decide⟩, Prod.ext rfl ?_, fun hnamed => ?_⟩,
    by decide +kernel⟩
  · decide +kernel
  · have hmissed : foundReviews (.scalar "SHOE-1") = [] := by
      decide +kernel
    have hreaches : reviewed.ReachesNamed reviewFamilies "SHOE-1"
        (reviewOf 2 (.reference (Catalog.recordId 0))) path.toTarget := by
      rw [htarget]
      exact ⟨.reference (Catalog.recordId 0), Store.mem_valuesAt_iff.1 (by decide +kernel),
        Catalog.recordId 0, List.mem_singleton_self _, by decide +kernel⟩
    have hfound : Catalog.recordId 2 ∈ foundReviews (.scalar "SHOE-1") :=
      List.mem_map_of_mem ((hnamed _).2 ⟨by decide +kernel, hreaches⟩)
    rw [hmissed] at hfound
    exact List.not_mem_nil hfound

end Filter

end AttributeFilter
