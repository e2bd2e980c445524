import AttributeFilter.Proofs.Query.Reach

/-!
# Stations on the way to a value

A condition at a target asks about the values at the end of the way from a record along the
references of the target. Such a way is given here by its stations: the first is the record, each
further one is stored under an identifier that the value of the station before it refers to, and the
last holds the value. A station may come twice where references lead in a circle. Every reference is
asked on its own, so one that leads nowhere takes nothing away from the others.

## Main definitions

* `Store.RefersTo`: a record refers to a stored one.
* `Store.Passes`: the stations of a way along references.

## Main results

* `Store.leads_iff_exists_passes`: chains of references are ways with stations.
* `Test.holdsAt_nil`, `Test.holdsAt_cons`: a condition on the record itself; one behind a reference
  is the one without it, of some record referred to.
* `Predicate.holds_iff_exists_passes`: a condition holds if some way leads to a value that passes
  its test.
-/

namespace AttributeFilter

namespace Store

variable {store : Store}

/-- The identifiers that a record refers to under a code: those of its value there. Without a value
there are none, and neither are there under a value that is no reference. -/
def idsAt (record : Record) (hop : String) : List Uuid :=
  ((record.value? hop).map Value.targets).getD []

theorem referenced_eq_filterMap_idsAt (record : Record) (hop : String) :
    store.referenced hop record = (idsAt record hop).filterMap store.get? :=
  rfl

/-- A record refers to another one under a code: the other one is stored under an identifier that
its value there points at. -/
def RefersTo (store : Store) (record : Record) (hop : String) (next : Record) : Prop :=
  ∃ value, record.value? hop = some value ∧ ∃ id ∈ value.targets, store.get? id = some next

/-- The stations of a way along references, numbered from the record at which it starts. -/
structure Passes (store : Store) (record : Record) (hops : List String) (stations : Nat → Record) :
    Prop where
  starts : stations 0 = record
  refers : ∀ i, (h : i < hops.length) → store.RefersTo (stations i) hops[i] (stations (i + 1))

/-- A way starts with its first reference, and goes on from the record that this leads to. -/
theorem passes_cons_iff {record : Record} {hop : String} {hops : List String}
    {stations : Nat → Record} :
    store.Passes record (hop :: hops) stations ↔
      stations 0 = record ∧ store.RefersTo record hop (stations 1) ∧
        store.Passes (stations 1) hops fun i => stations (i + 1) := by
  constructor
  · rintro ⟨rfl, hrefers⟩
    refine ⟨rfl, hrefers 0 (Nat.zero_lt_succ _), rfl, fun i h => ?_⟩
    exact hrefers (i + 1) (Nat.succ_lt_succ h)
  · rintro ⟨rfl, hfirst, hrest⟩
    refine ⟨rfl, fun i h => ?_⟩
    cases i with
    | zero => exact hfirst
    | succ i => exact hrest.refers i (Nat.lt_of_succ_lt_succ h)

/-- Where a chain of references leads, there is a way with stations. -/
theorem leads_iff_exists_passes {last : Record} : {hops : List String} → {record : Record} →
    (store.Leads record hops last ↔
      ∃ stations, store.Passes record hops stations ∧ stations hops.length = last)
  | [], record => by
    rw [leads_nil_iff]
    constructor
    · rintro rfl
      exact ⟨fun _ => last, ⟨rfl, fun i h => absurd h (Nat.not_lt_zero i)⟩, rfl⟩
    · rintro ⟨stations, hpasses, rfl⟩
      exact hpasses.starts
  | hop :: hops, record => by
    -- the record is generalised: the rest of the way starts from the one that it refers to
    rw [leads_cons_iff]
    constructor
    · rintro ⟨next, hnext, hrest⟩
      obtain ⟨stations, hpasses, rfl⟩ := leads_iff_exists_passes.1 hrest
      refine ⟨fun i => i.casesOn record stations, ?_, rfl⟩
      refine passes_cons_iff.2 ⟨rfl, ?_, ?_⟩
      · rw [← hpasses.starts] at hnext
        exact mem_referenced_iff.1 hnext
      · exact ⟨rfl, hpasses.refers⟩
    · rintro ⟨stations, hpasses, rfl⟩
      obtain ⟨-, hfirst, hrest⟩ := passes_cons_iff.1 hpasses
      exact ⟨stations 1, mem_referenced_iff.2 hfirst,
        leads_iff_exists_passes.2 ⟨_, hrest, rfl⟩⟩

end Store

variable {store : Store} {registry : Registry} {record : Record}

/-- Without references on the way a test asks the value of the record itself. -/
theorem Test.holdsAt_nil {family code : String} {test : Test} :
    test.holdsAt store registry record { hops := [], family, code } =
      (record.value? code).any (test.passes store registry) := by
  rw [Bool.eq_iff_iff]
  simp only [Test.holdsAt_iff, Store.Yields, Store.leads_nil_iff, exists_eq_left,
    Option.any_eq_true]

/-- Behind a reference a test asks each identifier on its own: the record stored under it, if there
is one, has to hold or to reach a value that passes. -/
theorem Test.holdsAt_cons {hop family code : String} {hops : List String} {test : Test} :
    test.holdsAt store registry record { hops := hop :: hops, family, code } =
      (Store.idsAt record hop).any fun id => (store.get? id).any fun next =>
        test.holdsAt store registry next { hops, family, code } := by
  rw [Bool.eq_iff_iff]
  simp only [List.any_eq_true, Option.any_eq_true, Test.holdsAt_iff, Store.Yields,
    Store.leads_cons_iff, Store.referenced_eq_filterMap_idsAt, List.mem_filterMap]
  constructor
  · rintro ⟨value, ⟨last, ⟨next, ⟨id, hid, hstored⟩, hrest⟩, hheld⟩, hpasses⟩
    exact ⟨id, hid, next, hstored, value, ⟨last, hrest, hheld⟩, hpasses⟩
  · rintro ⟨id, hid, next, hstored, value, ⟨last, hrest, hheld⟩, hpasses⟩
    exact ⟨value, ⟨last, ⟨next, ⟨id, hid, hstored⟩, hrest⟩, hheld⟩, hpasses⟩

/-- **A condition follows references.** It holds of a record if there is a way from it along the
references of the target to a record that holds a value which passes the test. Each identifier that
is passed adds what the record stored under it contributes; it adds nothing if no record is, and
takes nothing from what the others add. -/
theorem Predicate.holds_iff_exists_passes (store : Store) (registry : Registry) (record : Record)
    (hops : List String) (family code : String) (test : Test) :
    ((test.toPredicate { hops, family, code }).holds store registry record = true ↔
      ∃ stations, store.Passes record hops stations ∧
        ∃ value, (stations hops.length).value? code = some value ∧
          test.passes store registry value = true) ∧
    ∀ hop, (test.toPredicate { hops := hop :: hops, family, code }).holds store registry record =
      (Store.idsAt record hop).any fun id => (store.get? id).any fun next =>
        (test.toPredicate { hops, family, code }).holds store registry next := by
  simp only [holds_toPredicate, Test.holdsAt_iff, Store.Yields, Store.leads_iff_exists_passes]
  constructor
  · constructor
    · rintro ⟨value, ⟨_, ⟨stations, hway, rfl⟩, hheld⟩, hpasses⟩
      exact ⟨stations, hway, value, hheld, hpasses⟩
    · rintro ⟨stations, hway, value, hheld, hpasses⟩
      exact ⟨value, ⟨_, ⟨stations, hway, rfl⟩, hheld⟩, hpasses⟩
  · exact fun hop => Test.holdsAt_cons

end AttributeFilter
