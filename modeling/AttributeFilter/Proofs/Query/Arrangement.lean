import AttributeFilter.Proofs.Query.Execution
import AttributeFilter.Proofs.Query.Order
import AttributeFilter.Proofs.Query.StableSort
import AttributeFilter.Proofs.Record.Uniform
import AttributeFilter.Sample.Filters

/-!
# The arrangement of records

In what order a query gives its records is said here without sorting them. A clause puts one record
in front of another by the first values that the two reach at its target; a record that reaches none
comes last in both directions. The first clause that tells two records apart decides, and records
that no clause tells apart stay as they are stored. Where the values at each target are of one
variant, this describes exactly one list, and it is the one that the query gives. So a further
condition takes records out of it and moves no other one.

## Main definitions

* `Clause.Prefers`, `Clause.Ties`: a clause puts a record in front of another one, or tells neither
  apart.
* `Query.Precedes`: the first clause that tells two records apart puts one of them in front.
* `Query.Arranges`: the list of the records that a query finds, in the order asked for.

## Main results

* `Query.order_eq_lt_iff`, `Query.order_eq_eq_iff`: comparing records says which one precedes.
* `Query.arranges_iff_eq_execute`: what a query gives is the one list in the order asked for.
* `Query.execute_attach`: a further condition only takes records out.
-/

namespace AttributeFilter

open StableSort (Before TransOn)

/-- A clause puts a record in front of another one: the other one reaches no value at its target, or
the first values that both reach lie so in the direction of the clause. -/
inductive Clause.Prefers (store : Store) (clause : Clause) (a b : Record) : Prop
  | present {x : Value} (ha : Query.key store clause.target a = some x)
      (hb : Query.key store clause.target b = none)
  | ascending {x y : Value} (ha : Query.key store clause.target a = some x)
      (hb : Query.key store clause.target b = some y) (hd : clause.direction = .ascending)
      (h : x.Below y)
  | descending {x y : Value} (ha : Query.key store clause.target a = some x)
      (hb : Query.key store clause.target b = some y) (hd : clause.direction = .descending)
      (h : y.Below x)

/-- A clause does not tell two records apart. -/
def Clause.Ties (store : Store) (clause : Clause) (a b : Record) : Prop :=
  ¬ clause.Prefers store a b ∧ ¬ clause.Prefers store b a

namespace Query

/-- The first clause that tells two records apart puts the first one in front. -/
inductive Precedes (store : Store) (a b : Record) : List Clause → Prop
  | here {clause : Clause} {rest : List Clause} (h : clause.Prefers store a b) :
      Precedes store a b (clause :: rest)
  | later {clause : Clause} {rest : List Clause} (tie : clause.Ties store a b)
      (h : Precedes store a b rest) : Precedes store a b (clause :: rest)

/-- The records that a query finds, each of them once, in the order that its clauses ask for:
records precede each other by the first clause that tells them apart, and those that no clause tells
apart stay in the order of the store. -/
structure Arranges (query : Query) (store : Store) (registry : Registry)
    (records : List Record) : Prop where
  perm : records.Perm (query.matching store registry)
  precedes : ∀ a ∈ records, ∀ b ∈ records, Precedes store a b query.ordering →
    [a, b].Sublist records
  stays : ∀ a ∈ records, ∀ b ∈ records, (∀ clause ∈ query.ordering, clause.Ties store a b) →
    [a, b].Sublist store.records → [a, b].Sublist records

variable {query : Query} {store : Store} {registry : Registry} {clause : Clause}
  {clauses : List Clause} {a b : Record} {records : List Record}

instance (store : Store) (clauses : List Clause) : Std.OrientedCmp (order store clauses) where
  eq_swap := order_swap store clauses _ _

/-! ### Comparing records -/

/-- The values that the records are ordered by at the target of each clause are of one variant. -/
def Uniform (store : Store) (clauses : List Clause) (records : List Record) : Prop :=
  ∀ clause ∈ clauses, Value.Uniform (keys store clause.target records)

theorem Uniform.sublist (h : Uniform store clauses records) {others : List Record}
    (hsub : others.Sublist records) : Uniform store clauses others :=
  fun clause hclause => (h clause hclause).subset (hsub.filterMap _).subset

/-- The keys of two records lie to each other as the clause puts the records. -/
theorem compareKeys_eq_lt_iff (h : Value.Uniform (keys store clause.target records))
    (ha : a ∈ records) (hb : b ∈ records) :
    compareKeys clause.direction (key store clause.target a) (key store clause.target b) = .lt ↔
      clause.Prefers store a b := by
  obtain ⟨variant, hvariant⟩ := h
  cases hx : key store clause.target a with
  | none =>
    constructor
    · intro hlt
      cases hy : key store clause.target b <;> simp [compareKeys, hy] at hlt
    · intro hprefers
      cases hprefers <;> simp_all
  | some x =>
    cases hy : key store clause.target b with
    | none => exact ⟨fun _ => .present hx hy, fun _ => rfl⟩
    | some y =>
      have hxv := hvariant x (mem_keys ha hx)
      have hyv := hvariant y (mem_keys hb hy)
      cases hd : clause.direction with
      | ascending =>
        have hbelow : compareKeys .ascending (some x) (some y) = .lt ↔ x.Below y := by
          rw [← Value.compare?_eq_lt_iff hxv hyv, compareKeys]
          cases x.compare? y <;> simp
        rw [hbelow]
        refine ⟨.ascending hx hy hd, fun hprefers => ?_⟩
        cases hprefers <;> simp_all
      | descending =>
        have hbelow : compareKeys .descending (some x) (some y) = .lt ↔ y.Below x := by
          rw [← Value.compare?_eq_lt_iff hyv hxv, ← Value.compare?_eq_gt_iff, compareKeys]
          cases x.compare? y <;> simp
        rw [hbelow]
        refine ⟨.descending hx hy hd, fun hprefers => ?_⟩
        cases hprefers <;> simp_all

theorem compareKeys_eq_eq_iff (h : Value.Uniform (keys store clause.target records))
    (ha : a ∈ records) (hb : b ∈ records) :
    compareKeys clause.direction (key store clause.target a) (key store clause.target b) = .eq ↔
      clause.Ties store a b := by
  rw [Clause.Ties, ← compareKeys_eq_lt_iff h ha hb, ← compareKeys_eq_lt_iff h hb ha,
    compareKeys_swap clause.direction (key store clause.target a)]
  cases compareKeys clause.direction (key store clause.target a) (key store clause.target b) <;>
    simp

/-- One record compares as less than another if it precedes it. -/
theorem order_eq_lt_iff (h : Uniform store clauses records) (ha : a ∈ records)
    (hb : b ∈ records) : order store clauses a b = .lt ↔ Precedes store a b clauses := by
  induction clauses with
  | nil => exact ⟨nofun, nofun⟩
  | cons clause rest ih =>
    obtain ⟨hclause, hrest⟩ := List.forall_mem_cons.1 h
    rw [order, Ordering.then_eq_lt, compareKeys_eq_lt_iff hclause ha hb,
      compareKeys_eq_eq_iff hclause ha hb, ih hrest]
    constructor
    · rintro (hprefers | ⟨htie, hprecedes⟩)
      · exact .here hprefers
      · exact .later htie hprecedes
    · rintro (hprefers | ⟨htie, hprecedes⟩)
      · exact .inl hprefers
      · exact .inr ⟨htie, hprecedes⟩

/-- Two records compare as equal if no clause tells them apart. -/
theorem order_eq_eq_iff (h : Uniform store clauses records) (ha : a ∈ records)
    (hb : b ∈ records) :
    order store clauses a b = .eq ↔ ∀ clause ∈ clauses, clause.Ties store a b := by
  induction clauses with
  | nil => simp [order]
  | cons clause rest ih =>
    obtain ⟨hclause, hrest⟩ := List.forall_mem_cons.1 h
    rw [order, Ordering.then_eq_eq, compareKeys_eq_eq_iff hclause ha hb, ih hrest,
      List.forall_mem_cons]

theorem transOn_order (h : Uniform store clauses records) :
    TransOn (order store clauses) records := by
  intro a ha b hb c hc hab hbc
  have hcmp := transCmp_order fun clause hclause => (h clause hclause).sortable
  rw [ne_eq, Ordering.ne_gt_iff_isLE] at hab hbc ⊢
  exact hcmp.isLE_trans (a := ⟨a, ha⟩) (b := ⟨b, hb⟩) (c := ⟨c, hc⟩) hab hbc

/-! ### The records that a query gives -/

/-- Of two records that a query finds, it finds the one first that is stored first. -/
theorem pair_sublist_matching (ha : a ∈ query.matching store registry)
    (hb : b ∈ query.matching store registry) (h : [a, b].Sublist store.records) :
    [a, b].Sublist (query.matching store registry) := by
  obtain ⟨-, hfamily, hadmits⟩ := mem_matching_iff.1 ha
  obtain ⟨-, hfamily', hadmits'⟩ := mem_matching_iff.1 hb
  have hpair : ([a, b].filter (·.family == query.family)).filter (query.admits store registry) =
      [a, b] := by
    simp [hfamily, hfamily', hadmits, hadmits']
  exact hpair ▸ (h.filter (·.family == query.family)).filter (query.admits store registry)

/-- A further condition selects among the records that a query finds. -/
theorem matching_attach (query : Query) (condition : Predicate) :
    (query.attach condition).matching store registry =
      (query.matching store registry).filter (condition.holds store registry) := by
  have hadmits : (query.attach condition).admits store registry = fun record =>
      condition.holds store registry record && query.admits store registry record := by
    funext record
    simp [admits, attach, Bool.and_comm]
  rw [matching, matching, List.filter_filter, hadmits]
  rfl

/-- A query gives its records in the order asked for. -/
theorem arranges_execute (h : Uniform store query.ordering (query.matching store registry)) :
    query.Arranges store registry (query.execute store registry) where
  perm := StableSort.sort_perm _ _
  precedes a ha b hb hprecedes := by
    rw [execute, StableSort.mem_sort] at ha hb
    exact StableSort.Before.pair_sublist_sort nodup_matching (transOn_order h) ha hb
      (.inl ((order_eq_lt_iff h ha hb).2 hprecedes))
  stays a ha b hb hties hpair := by
    rw [execute, StableSort.mem_sort] at ha hb
    exact StableSort.Before.pair_sublist_sort nodup_matching (transOn_order h) ha hb
      (.inr ⟨(order_eq_eq_iff h ha hb).2 hties, pair_sublist_matching ha hb hpair⟩)

/-- In a list in the order asked for, a record in front of another one belongs there: it compares as
less, or it compares as equal and is found first. -/
theorem Arranges.pairwise (hrecords : query.Arranges store registry records)
    (h : Uniform store query.ordering (query.matching store registry)) :
    records.Pairwise (Before (order store query.ordering) (query.matching store registry)) := by
  have hd : records.Nodup := hrecords.perm.nodup_iff.2 nodup_matching
  refine List.pairwise_iff_forall_sublist.2 fun {a b} hpair => ?_
  have hfront : ¬ [b, a].Sublist records := StableSort.not_pair_sublist_swap hd hpair
  have har : a ∈ records := hpair.subset (by simp)
  have hbr : b ∈ records := hpair.subset (by simp)
  have ha := hrecords.perm.mem_iff.1 har
  have hb := hrecords.perm.mem_iff.1 hbr
  -- otherwise the second record would have to stand in front of the first one
  cases hcompare : order store query.ordering a b with
  | lt => exact .inl hcompare
  | eq =>
    have hne : a ≠ b := by
      rintro rfl
      exact hfront hpair
    refine .inr ⟨hcompare, (StableSort.pair_sublist_or ha hb hne).resolve_right fun hswap => ?_⟩
    have hback : order store query.ordering b a = .eq := by rw [order_swap, hcompare]; rfl
    exact hfront (hrecords.stays b hbr a har ((order_eq_eq_iff h hb ha).1 hback)
      (hswap.trans matching_sublist))
  | gt =>
    have hback : order store query.ordering b a = .lt := by rw [order_swap, hcompare]; rfl
    exact absurd (hrecords.precedes b hbr a har ((order_eq_lt_iff h hb ha).1 hback)) hfront

/-- **A query gives the one list in the order asked for.** Let the first values that the records
which a query finds reach at the target of each clause be of one variant. Then the only list of
these records in the order that the clauses ask for is the one that the query gives. -/
theorem arranges_iff_eq_execute
    (h : Uniform store query.ordering (query.matching store registry)) :
    query.Arranges store registry records ↔ records = query.execute store registry := by
  constructor
  · intro hrecords
    exact StableSort.eq_sort_of_pairwise nodup_matching (transOn_order h) hrecords.perm
      (hrecords.pairwise h)
  · rintro rfl
    exact arranges_execute h

/-- The products by the country of their brand, and for each country those released first. -/
def earliestByCountry : Query where
  family := "Product"
  ordering := [
    { target := { hops := ["brand"], family := "Brand", code := "country" },
      direction := .ascending },
    { target := { hops := [], family := "Product", code := "released" }, direction := .ascending }]

/-- The products are ordered by texts and by dates. -/
theorem uniform_earliestByCountry :
    Uniform Catalog.store earliestByCountry.ordering (Catalog.store.ofFamily "Product") :=
  List.forall_mem_cons.2 ⟨⟨.text, by decide +kernel⟩,
    List.forall_mem_cons.2 ⟨⟨.date, by decide +kernel⟩, List.forall_mem_nil _⟩⟩

theorem earliestByCountry_arranged :
    Uniform Catalog.store earliestByCountry.ordering
        (earliestByCountry.matching Catalog.store Catalog.families) ∧
      earliestByCountry.Arranges Catalog.store Catalog.families
        (earliestByCountry.execute Catalog.store Catalog.families) ∧
      (earliestByCountry.execute Catalog.store Catalog.families).map Record.id =
        [4, 3, 5].map Catalog.recordId := by
  have h := uniform_earliestByCountry.sublist (List.filter_sublist
    (p := earliestByCountry.admits Catalog.store Catalog.families))
  exact ⟨h, (arranges_iff_eq_execute h).2 rfl, by decide +kernel⟩

/-- **A further condition only takes records out.** -/
theorem execute_attach (h : Uniform store query.ordering (store.ofFamily query.family))
    (condition : Predicate) :
    (query.attach condition).execute store registry =
      (query.execute store registry).filter (condition.holds store registry) := by
  rw [execute, matching_attach]
  exact StableSort.sort_filter nodup_matching
    (transOn_order (h.sublist (List.filter_sublist (p := query.admits store registry)))) _

/-- A condition that two of the products meet. -/
def activeWithLetter : Predicate :=
  .all [.always, .equals { hops := [], family := "Product", code := "active" } (.bool true),
    .all [.like { hops := [], family := "Product", code := "name" } "%h%"]]

theorem earliestByCountry_attach :
    Uniform Catalog.store earliestByCountry.ordering
        (Catalog.store.ofFamily earliestByCountry.family) ∧
      (earliestByCountry.attach activeWithLetter).execute Catalog.store Catalog.families =
        (earliestByCountry.execute Catalog.store Catalog.families).filter
          (activeWithLetter.holds Catalog.store Catalog.families) ∧
      ((earliestByCountry.attach activeWithLetter).execute Catalog.store Catalog.families).map
        Record.id = [3, 5].map Catalog.recordId :=
  ⟨uniform_earliestByCountry, execute_attach uniform_earliestByCountry activeWithLetter,
    by decide +kernel⟩

end Query

end AttributeFilter
