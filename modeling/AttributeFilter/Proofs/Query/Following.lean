import AttributeFilter.Query.Basic
import Mathlib.Data.List.Perm.Basic

/-!
# Carrying plans out

A plan adds to a query and changes nothing else: order clauses whatever its ending, and one
condition if it concludes. So what several plans do to a query, one after the other, is what each of
them adds.

## Main definitions

* `Query.conditionsOf`: the conditions that a plan attaches.

## Main results

* `Query.family_follow`, `Query.conditions_follow`, `Query.ordering_follow`: a query after a plan.
* `Query.admits_follow_iff`: the records that it admits then.
* `Query.follow_idle`: the idle plan changes nothing.
* `Query.follow_of_no_effect`: a plan without tests and orders attaches a condition that always
  holds.
* `Query.family_foldl_follow`, `Query.conditions_foldl_follow`, `Query.ordering_foldl_follow`: a
  query after several plans.
* `Query.conditions_foldl_follow_perm`: the order of plans does not matter to the conditions.
-/

namespace AttributeFilter.Query

/-- The conditions that a plan attaches: the one that its tests amount to, if it concludes. -/
def conditionsOf (plan : Plan) : List Predicate :=
  match plan.ending with
  | .concluded => [conditionOf plan]
  | _ => []

theorem eq_conditionOf_of_mem {plan : Plan} {condition : Predicate}
    (h : condition ∈ conditionsOf plan) : condition = conditionOf plan := by
  rw [conditionsOf] at h
  split at h
  · exact List.mem_singleton.1 h
  · exact absurd h List.not_mem_nil

/-! ### One plan -/

@[simp] theorem family_follow (query : Query) (plan : Plan) :
    (query.follow plan).family = query.family := by
  rw [follow]
  split <;> rfl

@[simp] theorem ordering_follow (query : Query) (plan : Plan) :
    (query.follow plan).ordering = query.ordering ++ clausesOf plan := by
  rw [follow]
  split <;> rfl

@[simp] theorem conditions_follow (query : Query) (plan : Plan) :
    (query.follow plan).conditions = query.conditions ++ conditionsOf plan := by
  cases hended : plan.ending <;> simp [follow, conditionsOf, hended, attach]

@[simp] theorem follow_idle (query : Query) : query.follow .idle = query := by
  simp [follow, Plan.idle, clausesOf, Plan.orders]

theorem holds_conditionOf_iff {plan : Plan} {store : Store} {registry : Registry}
    {record : Record} :
    (conditionOf plan).holds store registry record = true ↔
      ∀ entry ∈ plan.tests, entry.2.holdsAt store registry record entry.1.toTarget = true := by
  simp only [conditionOf, Predicate.holds_conjunction, List.all_map, List.all_eq_true,
    Function.comp_apply, Predicate.holds_toPredicate]

/-- The records that a query admits when a plan has been carried out: those that it admitted before
and for which the tests hold, if the plan has concluded. -/
theorem admits_follow_iff {query : Query} {plan : Plan} {store : Store} {registry : Registry}
    {record : Record} :
    (query.follow plan).admits store registry record = true ↔
      query.admits store registry record = true ∧ (plan.ending = .concluded →
        ∀ entry ∈ plan.tests, entry.2.holdsAt store registry record entry.1.toTarget = true) := by
  rw [admits, conditions_follow, List.all_append, Bool.and_eq_true, conditionsOf]
  refine and_congr_right fun _ => ?_
  split
  · next hended =>
    rw [List.all_cons, List.all_nil, Bool.and_true, holds_conditionOf_iff,
      forall_prop_of_true hended]
  · next hended =>
    rw [List.all_nil, forall_prop_of_false hended]
    exact iff_of_true rfl trivial

theorem eq_of_parts {first second : Query} (hfamily : first.family = second.family)
    (hconditions : first.conditions = second.conditions)
    (hordering : first.ordering = second.ordering) : first = second := by
  cases first
  cases second
  simp_all

/-- A plan that concludes without tests and orders attaches a condition that always holds. -/
theorem follow_of_no_effect {plan : Plan} (hended : plan.ending = .concluded)
    (htests : plan.tests = []) (horders : plan.orders = []) (query : Query) :
    query.follow plan = query.attach .always := by
  have hcondition : conditionOf plan = .always := by
    rw [conditionOf, htests]
    rfl
  refine eq_of_parts (family_follow query plan) ?_ ?_
  · rw [conditions_follow, conditionsOf, hended, hcondition]
    rfl
  · rw [ordering_follow, clausesOf, horders, List.map_nil, List.append_nil]
    rfl

/-! ### Several plans -/

theorem family_foldl_follow (plans : List Plan) (query : Query) :
    (plans.foldl follow query).family = query.family := by
  induction plans generalizing query with
  | nil => rfl
  | cons plan rest ih => rw [List.foldl_cons, ih, family_follow]

theorem conditions_foldl_follow (plans : List Plan) (query : Query) :
    (plans.foldl follow query).conditions = query.conditions ++ plans.flatMap conditionsOf := by
  induction plans generalizing query with
  | nil => exact (List.append_nil _).symm
  | cons plan rest ih =>
    rw [List.foldl_cons, ih, conditions_follow, List.flatMap_cons, List.append_assoc]

/-- Plans attach the same conditions in any order. -/
theorem conditions_foldl_follow_perm {plans rearranged : List Plan}
    (hperm : plans.Perm rearranged) (query : Query) :
    (plans.foldl follow query).conditions.Perm (rearranged.foldl follow query).conditions := by
  rw [conditions_foldl_follow, conditions_foldl_follow]
  exact (hperm.flatMap_right conditionsOf).append_left query.conditions

theorem ordering_foldl_follow (plans : List Plan) (query : Query) :
    (plans.foldl follow query).ordering = query.ordering ++ plans.flatMap clausesOf := by
  induction plans generalizing query with
  | nil => exact (List.append_nil _).symm
  | cons plan rest ih =>
    rw [List.foldl_cons, ih, ordering_follow, List.flatMap_cons, List.append_assoc]

end AttributeFilter.Query
