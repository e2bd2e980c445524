import AttributeFilter.Query.Basic
import Mathlib.Data.List.Nodup

/-!
# Executing a query

A query without order clauses leaves the records as they are stored. In what order its conditions
were attached makes no difference.

## Main results

* `StableSort.sort_of_never_lt`: where no element comes before another one, sorting changes
  nothing.
* `Query.execute_of_ordering_nil`, `Query.execute_eq_filter_of_ordering_nil`: a query without order
  clauses gives its matching records, as they are stored.
* `Query.execute_of_admits_iff`, `Query.execute_congr`: only which records are admitted counts, and
  so the conditions count without their order.
* `Query.matching_sublist`, `Query.nodup_matching`: these are records of the store, in its order
  and without repetition.
-/

namespace AttributeFilter

namespace StableSort

variable {α : Type} {order : α → α → Ordering}

theorem foldl_settle_of_never_lt (h : ∀ a b, order a b ≠ .lt) (elements placed : List α) :
    elements.foldl (fun placed element => settle order element placed) placed =
      elements.reverse ++ placed := by
  induction elements generalizing placed with
  | nil => rfl
  | cons element rest ih =>
    have hsettle : settle order element placed = element :: placed := by
      cases placed with
      | nil => rfl
      | cons last before => rw [settle, if_neg (h element last)]
    rw [List.foldl_cons, hsettle, ih, List.reverse_cons, List.append_assoc, List.singleton_append]

/-- Where no element comes before another one, sorting changes nothing. -/
theorem sort_of_never_lt (h : ∀ a b, order a b ≠ .lt) (elements : List α) :
    sort order elements = elements := by
  rw [sort, foldl_settle_of_never_lt h, List.append_nil, List.reverse_reverse]

end StableSort

namespace Query

variable {query : Query} {store : Store} {registry : Registry}

/-- A query without order clauses gives the matching records as they are stored. -/
theorem execute_of_ordering_nil (h : query.ordering = []) :
    query.execute store registry = query.matching store registry := by
  rw [execute, h]
  exact StableSort.sort_of_never_lt (fun a b => by simp [order]) _

/-- It goes through the store and takes the records that it finds. -/
theorem execute_eq_filter_of_ordering_nil (h : query.ordering = []) {found : Record → Prop}
    [DecidablePred found]
    (hfound : ∀ record, record ∈ query.execute store registry ↔ found record) :
    query.execute store registry = store.records.filter (found ·) := by
  rw [execute_of_ordering_nil h, matching, Store.ofFamily, List.filter_filter]
  refine List.filter_congr fun record hrecord => ?_
  rw [Bool.eq_iff_iff, decide_eq_true_iff, ← hfound, mem_execute, Bool.and_eq_true, beq_iff_eq,
    and_comm]
  exact ⟨fun h => ⟨hrecord, h⟩, fun h => h.2⟩

/-- Queries for the same family that order alike and admit the same records find the same records,
in the same order. -/
theorem execute_of_admits_iff {first second : Query} (hfamily : first.family = second.family)
    (hordering : first.ordering = second.ordering)
    (hadmits : ∀ record, first.admits store registry record = true ↔
      second.admits store registry record = true) :
    first.execute store registry = second.execute store registry := by
  have hsame : first.admits store registry = second.admits store registry :=
    funext fun record => Bool.eq_iff_iff.2 (hadmits record)
  rw [execute, execute, matching, matching, hfamily, hordering, hsame]

/-- So do queries that have the same conditions, in whatever order. -/
theorem execute_congr {first second : Query} (hfamily : first.family = second.family)
    (hconditions : first.conditions.Perm second.conditions)
    (hordering : first.ordering = second.ordering) (store : Store) (registry : Registry) :
    first.execute store registry = second.execute store registry := by
  refine execute_of_admits_iff hfamily hordering fun record => ?_
  rw [admits, admits, hconditions.all_eq]

theorem matching_sublist : (query.matching store registry).Sublist store.records :=
  List.filter_sublist.trans List.filter_sublist

theorem nodup_matching : (query.matching store registry).Nodup :=
  (List.Nodup.of_map Record.id store.ids_nodup).sublist matching_sublist

theorem mem_matching_iff {record : Record} :
    record ∈ query.matching store registry ↔
      record ∈ store.records ∧ record.family = query.family ∧
        query.admits store registry record = true := by
  simp only [matching, Store.ofFamily, List.mem_filter, beq_iff_eq, and_assoc]

end Query

end AttributeFilter
