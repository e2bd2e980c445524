import AttributeFilter.Proofs.Query.Arrangement
import AttributeFilter.Proofs.Query.Stations
import AttributeFilter.Proofs.Record.History

/-!
# Records that a query cannot see

A query reads the records of its family, and from there only what is stored under identifiers that
stored records mention. So its answer depends on these two things: two stores with the same records
of the family, in which every identifier that is mentioned leads to the same record, answer alike.
A record of another family that no stored record mentions therefore leaves every answer as it is.

## Main definitions

* `Record.Mentions`: an identifier that a value of a record refers to.
* `Store.ResolvesAlike`: what the records of a store mention leads to the same in another store.

## Main results

* `Store.reached_congr`: the records reached are the same in both stores.
* `Predicate.holds_congr`, `Query.order_congr`: so are the conditions that hold, and the order.
* `Query.execute_of_resolvesAlike`: two stores that answer alike.
* `Query.execute_insert_unmentioned`: a record that a query cannot see.
-/

namespace AttributeFilter

/-- A record mentions an identifier: one of its values refers to it. -/
def Record.Mentions (record : Record) (id : Uuid) : Prop :=
  ∃ entry ∈ record.values, id ∈ entry.2.targets

instance (record : Record) (id : Uuid) : Decidable (record.Mentions id) :=
  inferInstanceAs (Decidable (∃ entry ∈ record.values, id ∈ entry.2.targets))

theorem Record.mentions_of_value? {record : Record} {code : String} {held : Value} {id : Uuid}
    (hheld : record.value? code = some held) (hid : id ∈ held.targets) : record.Mentions id :=
  ⟨(code, held), Keyed.mem_of_get?_eq_some hheld, hid⟩

namespace Store

variable {store other : Store} {registry : Registry}

/-- Every identifier that a record of the store mentions leads to the same record in the other one,
or to none in both. -/
def ResolvesAlike (store other : Store) : Prop :=
  ∀ record ∈ store.records, ∀ id, record.Mentions id → other.get? id = store.get? id

variable (h : store.ResolvesAlike other)

/-! ### Records and values reached -/

/-- What a stored record refers to is stored. -/
theorem mem_records_of_mem_referenced {record next : Record} {hop : String}
    (hnext : next ∈ store.referenced hop record) : next ∈ store.records := by
  obtain ⟨_, -, id, -, hstored⟩ := mem_referenced_iff.1 hnext
  exact (get?_eq_some_iff.1 hstored).1

/-- A chain of references that starts at a stored record ends at one. -/
theorem mem_records_of_leads {record last : Record} {hops : List String}
    (hleads : store.Leads record hops last) (hrecord : record ∈ store.records) :
    last ∈ store.records := by
  induction hleads with
  | here record => exact hrecord
  | along held pointed stored rest ih => exact ih (get?_eq_some_iff.1 stored).1

include h

theorem referenced_congr {record : Record} (hrecord : record ∈ store.records) (hop : String) :
    other.referenced hop record = store.referenced hop record := by
  rw [referenced_eq_filterMap_idsAt, referenced_eq_filterMap_idsAt]
  refine List.filterMap_congr fun id hid => h record hrecord id ?_
  rw [idsAt] at hid
  cases hheld : record.value? hop with
  | none =>
    rw [hheld] at hid
    exact absurd hid List.not_mem_nil
  | some held =>
    rw [hheld] at hid
    exact Record.mentions_of_value? hheld hid

/-- The records reached from stored ones are the same in both stores. -/
theorem reached_congr {records : List Record} (hrecords : records ⊆ store.records)
    (hops : List String) : other.reached records hops = store.reached records hops := by
  induction hops generalizing records with
  | nil => rfl
  | cons hop hops ih =>
    have hnext : records.flatMap (other.referenced hop) = records.flatMap (store.referenced hop) :=
      List.flatMap_congr fun record hrecord => referenced_congr h (hrecords hrecord) hop
    rw [reached, reached, hnext]
    -- every step leads to stored records again, so the next one is the same as well
    refine ih fun next hmem => ?_
    obtain ⟨record, -, hreferenced⟩ := List.mem_flatMap.1 hmem
    exact mem_records_of_mem_referenced hreferenced

theorem valuesAt_congr {record : Record} (hrecord : record ∈ store.records) (target : Target) :
    other.valuesAt record target = store.valuesAt record target := by
  have hstored : [record] ⊆ store.records :=
    List.cons_subset.2 ⟨hrecord, List.nil_subset _⟩
  rw [valuesAt, valuesAt, reached_congr h hstored]

/-- A value of a stored record is equal to the same texts in both stores. -/
theorem equalsText_congr {record : Record} (hrecord : record ∈ store.records) {code : String}
    {held : Value} (hheld : record.value? code = some held) (raw : String) :
    other.equalsText registry raw held = store.equalsText registry raw held := by
  have hidentifies : ∀ id ∈ held.targets,
      other.identifies registry raw id = store.identifies registry raw id := fun id hid => by
    rw [identifies, identifies, h record hrecord id (Record.mentions_of_value? hheld hid)]
  rw [Bool.eq_iff_iff]
  simp only [equalsText, Bool.or_eq_true, List.any_eq_true]
  exact or_congr_right (exists_congr fun id => and_congr_right fun hid => by rw [hidentifies id hid])

end Store

variable {store other : Store} {registry : Registry} {record : Record}

/-! ### Conditions and order -/

section Alike

variable (h : store.ResolvesAlike other)

include h

theorem Test.passes_congr {last : Record} (hlast : last ∈ store.records) {code : String}
    {held : Value} (hheld : last.value? code = some held) (test : Test) :
    test.passes other registry held = test.passes store registry held := by
  have hequals (raw : String) :
      other.equalsText registry raw held = store.equalsText registry raw held :=
    Store.equalsText_congr h hlast hheld raw
  cases test with
  | like pattern => rfl
  | equals comparand =>
    cases comparand with
    | bool expected => rfl
    | text raw => exact hequals raw
    | anyOf raws => exact List.any_congr rfl hequals

theorem Test.holdsAt_congr (hrecord : record ∈ store.records) (target : Target) (test : Test) :
    test.holdsAt other registry record target = test.holdsAt store registry record target := by
  rw [Bool.eq_iff_iff, holdsAt, holdsAt, Store.valuesAt_congr h hrecord, List.any_eq_true,
    List.any_eq_true]
  refine exists_congr fun held => and_congr_right fun hheld => ?_
  obtain ⟨last, hleads, hlast⟩ := Store.mem_valuesAt_iff.1 hheld
  rw [passes_congr h (Store.mem_records_of_leads hleads hrecord) hlast]

end Alike

mutual

/-- The same conditions hold of a stored record in both stores. -/
theorem Predicate.holds_congr (h : store.ResolvesAlike other) (hrecord : record ∈ store.records) :
    (condition : Predicate) →
      condition.holds other registry record = condition.holds store registry record
  | .always => rfl
  | .equals target comparand => Test.holdsAt_congr h hrecord target (.equals comparand)
  | .like target pattern => Test.holdsAt_congr h hrecord target (.like pattern)
  | .all conditions => holdsEach_congr h hrecord conditions

theorem Predicate.holdsEach_congr (h : store.ResolvesAlike other)
    (hrecord : record ∈ store.records) : (conditions : List Predicate) →
      Predicate.holdsEach other registry record conditions =
        Predicate.holdsEach store registry record conditions
  | [] => rfl
  | condition :: rest => by
    rw [holdsEach, holdsEach, holds_congr h hrecord condition, holdsEach_congr h hrecord rest]

end

namespace Query

/-- Stored records lie to each other in the same way in both stores. -/
theorem order_congr (h : store.ResolvesAlike other) {a b : Record} (ha : a ∈ store.records)
    (hb : b ∈ store.records) (clauses : List Clause) :
    order other clauses a b = order store clauses a b := by
  induction clauses with
  | nil => rfl
  | cons clause rest ih =>
    rw [order, order, key, key, key, key, Store.valuesAt_congr h ha, Store.valuesAt_congr h hb, ih]

variable {query : Query}

/-- Two stores answer a query alike if they have the same records of its family, and everything that
records of the first store mention leads to the same in the second one. -/
theorem execute_of_resolvesAlike (h : store.ResolvesAlike other)
    (hfamily : other.ofFamily query.family = store.ofFamily query.family) :
    query.execute other registry = query.execute store registry := by
  have hstored : ∀ record ∈ store.ofFamily query.family, record ∈ store.records :=
    fun record hrecord => (List.mem_filter.1 hrecord).1
  have hmatching : query.matching other registry = query.matching store registry := by
    rw [matching, matching, hfamily]
    refine List.filter_congr fun record hrecord => ?_
    rw [admits, admits, Bool.eq_iff_iff, List.all_eq_true, List.all_eq_true]
    simp only [Predicate.holds_congr h (hstored record hrecord)]
  rw [execute, execute, hmatching]
  refine StableSort.sort_congr fun a ha b hb => ?_
  exact order_congr h (hstored a (List.mem_filter.1 ha).1) (hstored b (List.mem_filter.1 hb).1) _

end Query

/-! ### A further record -/

namespace Store

/-- A record under a new identifier comes last. -/
theorem put_of_notMem : {records : List Record} → record.id ∉ records.map Record.id →
    put record records = records ++ [record]
  | [], _ => rfl
  | first :: rest, hnew => by
    rw [List.map_cons, List.mem_cons, not_or] at hnew
    rw [put, if_neg (Ne.symm hnew.1), put_of_notMem hnew.2, List.cons_append]

theorem ofFamily_insert_of_ne (hnew : record.id ∉ store.ids) {family : String}
    (hfamily : record.family ≠ family) :
    (store.insert record).ofFamily family = store.ofFamily family := by
  have hrecords : (store.insert record).records = store.records ++ [record] := put_of_notMem hnew
  rw [ofFamily, hrecords, List.filter_append, ofFamily]
  simp [hfamily]

/-- What the records of a store mention leads to the same if a record is added that none of them
mentions. -/
theorem resolvesAlike_insert
    (hunmentioned : ∀ stored ∈ store.records, ¬ stored.Mentions record.id) :
    store.ResolvesAlike (store.insert record) := by
  intro stored hstored id hid
  have hne : id ≠ record.id := by
    rintro rfl
    exact hunmentioned stored hstored hid
  exact store.get?_insert_of_ne record hne

end Store

namespace Query

/-- **A record that nothing leads to is invisible.** Take a record under a new identifier that no
stored record mentions. Queries for any other family give the same records in the same order
whether it is in the store or not, whatever their conditions and order clauses. -/
theorem execute_insert_unmentioned (query : Query) (registry : Registry)
    (hnew : record.id ∉ store.ids) (hfamily : record.family ≠ query.family)
    (hunmentioned : ∀ stored ∈ store.records, ¬ stored.Mentions record.id) :
    query.execute (store.insert record) registry = query.execute store registry :=
  execute_of_resolvesAlike (Store.resolvesAlike_insert hunmentioned)
    (Store.ofFamily_insert_of_ne hnew hfamily)

/-- A maker that mentions products of the catalog and is not mentioned there. -/
def cordonnier : Record where
  id := Catalog.recordId 6
  family := "Maker"
  values := [("name", .text "Cordonnier"),
    ("makes", .references [Catalog.recordId 4, Catalog.recordId 3])]

/-- Products by the country of their brand do not depend on the maker. -/
theorem execute_insert_cordonnier :
    let query := earliestByCountry.attach activeWithLetter
    (cordonnier.id ∉ Catalog.store.ids ∧ cordonnier.family ≠ query.family ∧
      ∀ stored ∈ Catalog.store.records, ¬ stored.Mentions cordonnier.id) ∧
    query.execute (Catalog.store.insert cordonnier) Catalog.families =
      query.execute Catalog.store Catalog.families ∧
    (query.execute (Catalog.store.insert cordonnier) Catalog.families).map Record.id =
      [3, 5].map Catalog.recordId := by
  intro query
  have hnew : cordonnier.id ∉ Catalog.store.ids := by decide +kernel
  have hfamily : cordonnier.family ≠ query.family := by decide
  have hunmentioned : ∀ stored ∈ Catalog.store.records, ¬ stored.Mentions cordonnier.id := by
    decide +kernel
  exact ⟨⟨hnew, hfamily, hunmentioned⟩,
    execute_insert_unmentioned query Catalog.families hnew hfamily hunmentioned, by decide +kernel⟩

end Query

end AttributeFilter
