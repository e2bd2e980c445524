import AttributeFilter.Query.Predicate

/-!
# Values along references

A target names the references to follow from a record and the attribute to read at the end. The
evaluator follows them breadth first, with a list of records for each step. Here a value is
reached if one chain of stored records leads to it, and the two readings agree: a reference that
leads nowhere ends its own chain and no other one.

## Main definitions

* `Store.Leads`: a chain of stored records along some references.
* `Store.Yields`: a value at the end of such a chain.
* `Store.Denotes`: a value that a request text stands for, by itself or through the identifier of
  a record it refers to.

## Main results

* `Store.mem_reached_iff`: the records that the evaluator reaches are those at the ends of chains.
* `Store.mem_valuesAt_iff`: so are the values.
* `Store.equalsText_iff`: the evaluator's equality with a text is `Store.Denotes`.
* `Test.holdsAt_iff`: a test holds at a target if some value at the end of a chain passes it.
-/

namespace AttributeFilter

namespace Store

variable {store : Store} {registry : Registry}

/-- A chain of stored records along references: each record is stored under an identifier that the
value of the record before it points at. -/
inductive Leads (store : Store) : Record → List String → Record → Prop
  | here (record : Record) : Leads store record [] record
  | along {record next last : Record} {hop : String} {hops : List String} {value : Value}
      {id : Uuid} (held : record.value? hop = some value) (pointed : id ∈ value.targets)
      (stored : store.get? id = some next) (rest : Leads store next hops last) :
      Leads store record (hop :: hops) last

/-- A chain of stored records along the references ends at a record with the value under the
code. -/
def Yields (store : Store) (record : Record) (hops : List String) (code : String)
    (value : Value) : Prop :=
  ∃ last, store.Leads record hops last ∧ last.value? code = some value

/-- The text stands for the value, or for the value at the identifier of a stored record that the
value refers to. -/
def Denotes (store : Store) (registry : Registry) (raw : String) (value : Value) : Prop :=
  value.matchesText raw = true ∨
    ∃ id ∈ value.targets, ∃ referred family identifier held,
      store.get? id = some referred ∧ registry.family? referred.family = some family ∧
        family.designated? .identifier = some identifier ∧
          referred.value? identifier.code = some held ∧ held.matchesText raw = true

/-! ### Chains of records -/

theorem mem_referenced_iff {code : String} {record next : Record} :
    next ∈ store.referenced code record ↔
      ∃ value, record.value? code = some value ∧
        ∃ id ∈ value.targets, store.get? id = some next := by
  rw [referenced]
  cases record.value? code with
  | none => simp
  | some value => simp

/-- The references passed are those of the chain; the first of them leads to the next record. -/
theorem leads_cons_iff {record last : Record} {hop : String} {hops : List String} :
    store.Leads record (hop :: hops) last ↔
      ∃ next ∈ store.referenced hop record, store.Leads next hops last := by
  constructor
  · intro h
    cases h with
    | along held pointed stored rest =>
      exact ⟨_, mem_referenced_iff.2 ⟨_, held, _, pointed, stored⟩, rest⟩
  · rintro ⟨next, hnext, rest⟩
    obtain ⟨value, held, id, pointed, stored⟩ := mem_referenced_iff.1 hnext
    exact .along held pointed stored rest

theorem leads_nil_iff {record last : Record} : store.Leads record [] last ↔ last = record := by
  constructor
  · intro h
    cases h
    rfl
  · rintro rfl
    exact .here last

/-- The records reached from several are those at the ends of their chains. -/
theorem mem_reached_iff {last : Record} : {hops : List String} → {records : List Record} →
    (last ∈ store.reached records hops ↔ ∃ record ∈ records, store.Leads record hops last)
  | [], records => by simp [reached, leads_nil_iff]
  | hop :: hops, records => by
    -- the list of records is generalised: the rest of the way starts from all of its successors
    rw [reached, mem_reached_iff]
    simp only [List.mem_flatMap, leads_cons_iff]
    constructor
    · rintro ⟨next, ⟨record, hrecord, hnext⟩, rest⟩
      exact ⟨record, hrecord, next, hnext, rest⟩
    · rintro ⟨record, hrecord, next, hnext, rest⟩
      exact ⟨next, ⟨record, hrecord, hnext⟩, rest⟩

/-- The values at a target are those at the ends of the chains along its references. -/
theorem mem_valuesAt_iff {record : Record} {target : Target} {value : Value} :
    value ∈ store.valuesAt record target ↔
      store.Yields record target.hops target.code value := by
  simp [valuesAt, Yields, List.mem_filterMap, mem_reached_iff]

/-! ### Equality with a text -/

theorem identifies_iff {raw : String} {id : Uuid} :
    store.identifies registry raw id = true ↔
      ∃ referred family identifier held,
        store.get? id = some referred ∧ registry.family? referred.family = some family ∧
          family.designated? .identifier = some identifier ∧
            referred.value? identifier.code = some held ∧ held.matchesText raw = true := by
  simp only [identifies, identifierValue?, Option.any_eq_true, Option.bind_eq_some_iff,
    bind]
  constructor
  · rintro ⟨held, ⟨referred, hget, family, hfamily, identifier, hid, hheld⟩, hm⟩
    exact ⟨referred, family, identifier, held, hget, hfamily, hid, hheld, hm⟩
  · rintro ⟨referred, family, identifier, held, hget, hfamily, hid, hheld, hm⟩
    exact ⟨held, ⟨referred, hget, family, hfamily, identifier, hid, hheld⟩, hm⟩

/-- The evaluator's equality with a text, as a statement on the records referred to. -/
theorem equalsText_iff {raw : String} {value : Value} :
    store.equalsText registry raw value = true ↔ store.Denotes registry raw value := by
  simp only [equalsText, Denotes, Bool.or_eq_true, List.any_eq_true, identifies_iff]

end Store

/-! ### Tests at a target -/

/-- A test holds at a target if a value at the end of some chain passes it. -/
theorem Test.holdsAt_iff {store : Store} {registry : Registry} {record : Record}
    {target : Target} {test : Test} :
    test.holdsAt store registry record target = true ↔
      ∃ value, store.Yields record target.hops target.code value ∧
        test.passes store registry value = true := by
  simp only [holdsAt, List.any_eq_true, Store.mem_valuesAt_iff]

end AttributeFilter
