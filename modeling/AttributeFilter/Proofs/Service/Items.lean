import AttributeFilter.Proofs.Outcome
import AttributeFilter.Proofs.Query.Execution
import AttributeFilter.Proofs.Query.Identification
import AttributeFilter.Proofs.Record.Lookup
import AttributeFilter.Sample.Filters

/-!
# Items and collections

The record that a text identifies is looked up in the store, and the records with a value that is
equal to a text are found by a query. Where the values at the identifier of a family refer to
nothing, both compare in the same way, so an item is the first record of the collection that asks
its identifier for equality. The two differ only where that collection is empty: the look-up then
takes the text for the identifier that a record is stored under.

## Main definitions

* `Query.asking`: a query that also asks for a value equal to a text.

## Main results

* `Query.head?_execute_asking`: the first record that such a query finds.
* `Service.findItem_eq_first`: the item is the first record of the collection, or else the one that
  is stored under the text.
-/

namespace AttributeFilter

namespace Query

/-- The query that also asks for a value at the attribute of its own family that is equal to the
text. -/
def asking (query : Query) (code raw : String) : Query :=
  query.attach (.equals { hops := [], family := query.family, code } (.text raw))

variable {store : Store} {registry : Registry} {family : Family} {identifier : Attribute}
  {raw : String}

/-- The value of a record that is no reference is equal to a text if the text stands for it. -/
theorem admits_asking_iff {record : Record} (hfamily : record.family = family.code)
    (hidentifier : family.designated? .identifier = some identifier)
    (hplain : ∀ held, record.value? identifier.code = some held → ¬ held.IsReference) :
    (asking { family := family.code } identifier.code raw).admits store registry record = true ↔
      record.AnswersTo family raw := by
  rw [Record.answersTo_iff, hidentifier, Option.bind_some, and_iff_right hfamily, admits, asking,
    attach, List.nil_append, List.all_cons, List.all_nil, Bool.and_true, Predicate.holds,
    Test.holdsAt_nil, Option.any_eq_true, Option.any_eq_true]
  refine exists_congr fun held => and_congr_right fun hheld => ?_
  rw [Test.passes, Comparand.isEqual, Store.equalsText_iff,
    Store.denotes_iff_of_not_isReference (hplain held hheld)]

/-- The query that asks the identifier of a family for equality finds first what the look-up by the
value at the identifier finds. -/
theorem head?_execute_asking (hidentifier : family.designated? .identifier = some identifier)
    (hplain : ∀ record ∈ store.ofFamily family.code, ∀ held,
      record.value? identifier.code = some held → ¬ held.IsReference) :
    ((asking { family := family.code } identifier.code raw).execute store registry).head? =
      store.findByIdentifierValue family raw := by
  have hmatching : (asking { family := family.code } identifier.code raw).matching store registry =
      (store.ofFamily family.code).filter fun record => record.AnswersTo family raw := by
    refine List.filter_congr fun record hrecord => ?_
    have hfamily : record.family = family.code := beq_iff_eq.1 (List.mem_filter.1 hrecord).2
    rw [Bool.eq_iff_iff, admits_asking_iff hfamily hidentifier (hplain record hrecord),
      decide_eq_true_iff]
  rw [execute_of_ordering_nil rfl, hmatching, List.head?_filter, Store.findByIdentifierValue_eq,
    Store.ofFamily, List.find?_filter]
  congr 1
  funext record
  -- a record that answers to the text is one of the family anyway
  simp only [beq_iff_eq, decide_eq_true_iff, decide_eq_decide]
  exact and_iff_right_of_imp fun h => h.1

end Query

namespace Service

variable {service : Service} {resource : String}

/-- **Items and collections agree.** Let a resource be governed by a family whose values at its
identifier are no references. The item that a text identifies is the first record of the collection
of those with an identifier equal to the text. If there are none, it is the record of the family that
is stored under the text, if there is one. -/
theorem findItem_eq_first {query : Query} (store : Store) (raw : String)
    (hquery : service.query resource = .ok query) :
    ∃ family, service.registry.governing resource = .ok family ∧
      query = { family := family.code } ∧
      ∀ identifier, family.designated? .identifier = some identifier →
        (∀ record ∈ store.ofFamily family.code, ∀ held,
          record.value? identifier.code = some held → ¬ held.IsReference) →
        ∃ found, service.findItem store resource raw = .ok found ∧
          (∀ first others,
            (query.asking identifier.code raw).execute store service.registry = first :: others →
              found = some first) ∧
          ((query.asking identifier.code raw).execute store service.registry = [] →
            ∀ record, found = some record ↔
              record ∈ store.records ∧ record.FiledUnder family raw) := by
  obtain ⟨family, hgoverning, hstart⟩ := Outcome.bind_eq_ok_iff.1 hquery
  cases hstart
  refine ⟨family, hgoverning, rfl, fun identifier hidentifier hplain => ?_⟩
  have hfirst : ((Query.asking { family := family.code } identifier.code raw).execute store
      service.registry).head? = store.findByIdentifierValue family raw :=
    Query.head?_execute_asking hidentifier hplain
  refine ⟨store.findByIdentifier family raw, ?_, ?_, ?_⟩
  · rw [findItem, hgoverning]
    rfl
  · intro first others hothers
    rw [hothers, List.head?_cons] at hfirst
    rw [Store.findByIdentifier, ← hfirst, Option.some_or]
  · intro hnone record
    rw [hnone, List.head?_nil] at hfirst
    rw [Store.findByIdentifier, ← hfirst, Option.none_or, Store.findById_eq_some_iff]

/-- The leather boot is the only product with its article number, so it is the item for that. -/
theorem findItem_boot_eq_first :
    Catalog.service.query Catalog.productClass = .ok { family := "Product" } ∧
    ∃ family identifier, Catalog.service.registry.governing Catalog.productClass = .ok family ∧
      family.designated? .identifier = some identifier ∧
      (∀ record ∈ Catalog.store.ofFamily family.code, ∀ held,
        record.value? identifier.code = some held → ¬ held.IsReference) ∧
      ∃ boot, boot.id = Catalog.recordId 4 ∧
        (Query.asking { family := "Product" } identifier.code "BOOT-1").execute Catalog.store
          Catalog.service.registry = [boot] ∧
        Catalog.service.findItem Catalog.store Catalog.productClass "BOOT-1" = .ok (some boot) := by
  have hquery : Catalog.service.query Catalog.productClass = .ok { family := "Product" } := rfl
  have hcode : ((Catalog.service.registry.governing Catalog.productClass).toOption.bind
      (·.designated? .identifier)).map Attribute.code = some "sku" := by
    decide +kernel
  have hplain : ∀ record ∈ Catalog.store.ofFamily "Product", ∀ held ∈ record.value? "sku",
      ¬ held.IsReference := by
    decide +kernel
  have hfound : ((Query.asking { family := "Product" } "sku" "BOOT-1").execute Catalog.store
      Catalog.service.registry).map Record.id = [Catalog.recordId 4] := by
    decide +kernel
  obtain ⟨family, hgoverning, hfamily, hitem⟩ := findItem_eq_first Catalog.store "BOOT-1" hquery
  have hfamily : family.code = "Product" := (congrArg Query.family hfamily).symm
  rw [hgoverning, Except.toOption, Option.bind_some, Option.map_eq_some_iff] at hcode
  obtain ⟨identifier, hidentifier, hcode⟩ := hcode
  rw [← hfamily, ← hcode] at hplain
  rw [← hcode] at hfound
  obtain ⟨boot, hboot, hid⟩ := List.map_eq_singleton_iff.1 hfound
  obtain ⟨found, hfinds, hfirst, -⟩ := hitem identifier hidentifier hplain
  cases hfirst boot [] hboot
  exact ⟨hquery, family, identifier, hgoverning, hidentifier, hplain, boot, hid, hboot, hfinds⟩

end Service

end AttributeFilter
