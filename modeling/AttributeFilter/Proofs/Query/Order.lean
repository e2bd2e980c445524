import AttributeFilter.Proofs.Record.Comparison
import AttributeFilter.Query.Basic
import AttributeFilter.Sample.Catalog

/-!
# The order of records

Records are sorted by comparing the values that the order clauses reach. A record compared with
itself is equal to it, and swapping two records swaps the answer. The comparison is transitive as
well if the values at each target can be sorted, and only then: where values of one kind are mixed
with others, or where a decimal is equal to two different integers, a record may come before a
second one and this one before a third, though the first one comes after the third.

## Main results

* `Query.order_swap`: swapping two records swaps the answer.
* `Query.transCmp_order`: the order of records whose values can be sorted is transitive.
* `Query.order_lawful_iff`: which targets records can be sorted by.
-/

namespace AttributeFilter.Query

variable {store : Store} {records : List Record} {target : Target}

/-! ### Swapping -/

theorem compareKeys_swap (direction : Direction) (a b : Option Value) :
    compareKeys direction b a = (compareKeys direction a b).swap := by
  cases a with
  | none => cases b <;> rfl
  | some a =>
    cases b with
    | none => rfl
    | some b =>
      simp only [compareKeys, Value.compare?_swap a b]
      cases a.compare? b <;> cases direction <;> simp

theorem order_swap (store : Store) (clauses : List Clause) (a b : Record) :
    order store clauses b a = (order store clauses a b).swap := by
  induction clauses with
  | nil => rfl
  | cons clause rest ih => rw [order, order, compareKeys_swap, ih, Ordering.swap_then]

/-- A record is equal to itself: it is the only answer that swapping leaves as it is. -/
theorem order_self (store : Store) (clauses : List Clause) (a : Record) :
    order store clauses a a = .eq := by
  have h := order_swap store clauses a a
  cases hself : order store clauses a a with
  | eq => rfl
  | lt => simp [hself] at h
  | gt => simp [hself] at h

/-! ### Transitivity -/

/-- The values that the records are ordered by at the target. -/
def keys (store : Store) (target : Target) (records : List Record) : List Value :=
  records.filterMap (key store target)

theorem mem_keys {record : Record} {value : Value} (hrecord : record ∈ records)
    (hkey : key store target record = some value) : value ∈ keys store target records :=
  List.mem_filterMap.2 ⟨record, hrecord, hkey⟩

theorem compareKeys_ne_gt_iff {direction : Direction} {a b : Value} :
    compareKeys direction (some a) (some b) ≠ .gt ↔
      match direction with
      | .ascending => a.compare? b ≠ some .gt
      | .descending => b.compare? a ≠ some .gt := by
  simp only [compareKeys, Value.compare?_swap a b]
  cases a.compare? b with
  | none => cases direction <;> simp
  | some ordering => cases direction <;> cases ordering <;> simp

/-- Both directions order values that can be sorted; a missing value comes last in both. -/
theorem compareKeys_trans {values : List Value} (h : Value.Transitive values)
    (direction : Direction) {a b c : Option Value} (ha : ∀ value, a = some value → value ∈ values)
    (hb : ∀ value, b = some value → value ∈ values)
    (hc : ∀ value, c = some value → value ∈ values) (hab : compareKeys direction a b ≠ .gt)
    (hbc : compareKeys direction b c ≠ .gt) : compareKeys direction a c ≠ .gt := by
  cases c with
  | none => cases a <;> simp [compareKeys]
  | some z =>
    cases b with
    | none => exact absurd rfl hbc
    | some y =>
      cases a with
      | none => exact absurd rfl hab
      | some x =>
        have hx := ha x rfl
        have hy := hb y rfl
        have hz := hc z rfl
        rw [compareKeys_ne_gt_iff] at hab hbc ⊢
        cases direction with
        | ascending => exact h x hx y hy z hz hab hbc
        | descending => exact h z hz y hy x hx hbc hab

theorem order_singleton (store : Store) (clause : Clause) (a b : Record) :
    order store [clause] a b =
      compareKeys clause.direction (key store clause.target a) (key store clause.target b) :=
  Ordering.then_eq

/-- One clause orders records whose values at its target can be sorted. -/
theorem transCmp_compareKeys (h : Value.Sortable (keys store target records))
    (direction : Direction) :
    Std.TransCmp fun a b : {record // record ∈ records} =>
      compareKeys direction (key store target a) (key store target b) where
  eq_swap := compareKeys_swap _ _ _
  isLE_trans {a b c} hab hbc := by
    rw [← Ordering.ne_gt_iff_isLE] at hab hbc ⊢
    exact compareKeys_trans (Value.transitive_of_sortable h) direction (fun _ => mem_keys a.2)
      (fun _ => mem_keys b.2) (fun _ => mem_keys c.2) hab hbc

/-- All clauses together order records whose values at every target can be sorted. -/
theorem transCmp_order {clauses : List Clause}
    (h : ∀ clause ∈ clauses, Value.Sortable (keys store clause.target records)) :
    Std.TransCmp fun a b : {record // record ∈ records} => order store clauses a b := by
  induction clauses with
  | nil => exact { eq_swap := rfl, isLE_trans := fun _ _ => rfl }
  | cons clause rest ih =>
    have hrest := ih fun other hother => h other (List.mem_cons_of_mem _ hother)
    have hclause := transCmp_compareKeys (h clause List.mem_cons_self) clause.direction
    exact inferInstanceAs (Std.TransCmp (compareLex
      (fun a b : {record // record ∈ records} =>
        compareKeys clause.direction (key store clause.target a) (key store clause.target b))
      fun a b => order store rest a b))

/-- **Which targets records can be sorted by.** Under all clauses a record is equal to itself, and
swapping two records swaps the answer. Clauses with the given targets never break transitivity on
the records exactly if the values of the records at each of the targets can be sorted. -/
theorem order_lawful_iff (store : Store) (targets : List Target) (records : List Record) :
    (∀ clauses a, order store clauses a a = .eq) ∧
    (∀ clauses a b, order store clauses b a = (order store clauses a b).swap) ∧
    ((∀ clauses : List Clause, (∀ clause ∈ clauses, clause.target ∈ targets) →
        ∀ a ∈ records, ∀ b ∈ records, ∀ c ∈ records, order store clauses a b ≠ .gt →
          order store clauses b c ≠ .gt → order store clauses a c ≠ .gt) ↔
      ∀ target ∈ targets, Value.Sortable (keys store target records)) := by
  refine ⟨order_self store, order_swap store, fun h target htarget => ?_, ?_⟩
  · refine Value.sortable_iff.2 fun x hx y hy z hz => ?_
    obtain ⟨a, ha, hx⟩ := List.mem_filterMap.1 hx
    obtain ⟨b, hb, hy⟩ := List.mem_filterMap.1 hy
    obtain ⟨c, hc, hz⟩ := List.mem_filterMap.1 hz
    have htrans := h [{ target, direction := .ascending }] (by simpa using htarget) a ha b hb c hc
    simp only [order_singleton, hx, hy, hz, compareKeys_ne_gt_iff] at htrans
    exact htrans
  · intro h clauses hclauses a ha b hb c hc hab hbc
    have hcmp := transCmp_order fun clause hclause => h clause.target (hclauses clause hclause)
    rw [ne_eq, Ordering.ne_gt_iff_isLE] at hab hbc ⊢
    exact hcmp.isLE_trans (a := ⟨a, ha⟩) (b := ⟨b, hb⟩) (c := ⟨c, hc⟩) hab hbc

/-- A product of which nothing is known but its price. -/
def priced (index : Nat) (price : Value) : Record where
  id := Catalog.recordId index
  family := "Product"
  values := [("price", price)]

def cheapestFirst : Query where
  family := "Product"
  ordering := [{
    target := { hops := [], family := "Product", code := "price" }, direction := .ascending }]

/-- A decimal that two different integers are rounded to, or a text between them, keeps products
from being sorted by their price: the first product is equal to the second one and this one to the
third, but the first one comes after the third, and stays in front of it. -/
theorem cheapestFirst_unsorted :
    let clauses := cheapestFirst.ordering
    let registry : Registry := ⟨[], List.nodup_nil⟩
    let dear := priced 0 (.integer 9007199254740993)
    let cheap := priced 2 (.integer 9007199254740992)
    let blurred := priced 1 (.decimal (.ofInt 9007199254740992))
    let unclear := priced 1 (.text "on request")
    (let store := Store.empty.insertAll [dear, blurred, cheap];
      store.ofFamily "Product" = [dear, blurred, cheap] ∧
        order store clauses dear blurred = .eq ∧ order store clauses blurred cheap = .eq ∧
        order store clauses dear cheap = .gt ∧
        cheapestFirst.execute store registry = [dear, blurred, cheap]) ∧
    (let store := Store.empty.insertAll [dear, unclear, cheap];
      store.ofFamily "Product" = [dear, unclear, cheap] ∧
        order store clauses dear unclear = .eq ∧ order store clauses unclear cheap = .eq ∧
        order store clauses dear cheap = .gt ∧
        cheapestFirst.execute store registry = [dear, unclear, cheap]) := by
  decide +kernel

end AttributeFilter.Query
