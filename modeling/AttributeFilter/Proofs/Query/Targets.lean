import AttributeFilter.Proofs.Query.Following

/-!
# The targets that a query mentions

A query mentions targets in its conditions, however deep, and in its order clauses. Carrying out a
plan adds the targets of its steps, and no others.

## Main definitions

* `Predicate.targets`, `Query.targets`: the targets that a condition mentions, and a query.

## Main results

* `Query.mem_targets_follow`: the targets after a plan are those before it or of its steps.
-/

namespace AttributeFilter

namespace Predicate

mutual

def targets : Predicate → List Target
  | always => []
  | equals target _ => [target]
  | like target _ => [target]
  | all conditions => targetsOfEach conditions

def targetsOfEach : List Predicate → List Target
  | [] => []
  | condition :: rest => targets condition ++ targetsOfEach rest

end

theorem mem_targetsOfEach_iff {target : Target} : (conditions : List Predicate) →
    (target ∈ targetsOfEach conditions ↔ ∃ condition ∈ conditions, target ∈ condition.targets)
  | [] => by simp [targetsOfEach]
  | condition :: rest => by simp [targetsOfEach, mem_targetsOfEach_iff rest]

theorem mem_targets_conjunction_iff {target : Target} {conditions : List Predicate} :
    target ∈ (conjunction conditions).targets ↔
      ∃ condition ∈ conditions, target ∈ condition.targets := by
  cases conditions with
  | nil => simp [conjunction, targets]
  | cons condition rest =>
    rw [conjunction, if_neg (by simp), targets]
    exact mem_targetsOfEach_iff (condition :: rest)

theorem targets_toPredicate (target : Target) (test : Test) :
    (test.toPredicate target).targets = [target] := by
  cases test <;> simp [Test.toPredicate, targets]

end Predicate

namespace Query

/-- The targets that a query mentions in its conditions and its order clauses. -/
def targets (query : Query) : List Target :=
  query.conditions.flatMap Predicate.targets ++ query.ordering.map Clause.target

variable {target : Target} {plan : Plan}

theorem mem_targets_conditionOf (h : target ∈ (conditionOf plan).targets) :
    ∃ step ∈ plan.steps, target = step.path.toTarget := by
  obtain ⟨condition, hcondition, htarget⟩ := Predicate.mem_targets_conjunction_iff.1 h
  obtain ⟨entry, hentry, rfl⟩ := List.mem_map.1 hcondition
  rw [Predicate.targets_toPredicate, List.mem_singleton] at htarget
  obtain ⟨step, hstep, htest⟩ := List.mem_filterMap.1 hentry
  rw [Step.test?] at htest
  split at htest
  · cases htest
    exact ⟨step, hstep, htarget⟩
  · cases htest

theorem mem_targets_clausesOf (h : target ∈ (clausesOf plan).map Clause.target) :
    ∃ step ∈ plan.steps, target = step.path.toTarget := by
  obtain ⟨clause, hclause, rfl⟩ := List.mem_map.1 h
  obtain ⟨entry, hentry, rfl⟩ := List.mem_map.1 hclause
  obtain ⟨step, hstep, horder⟩ := List.mem_filterMap.1 hentry
  rw [Step.order?] at horder
  split at horder
  · cases horder
    exact ⟨step, hstep, rfl⟩
  · cases horder

/-- The targets after a plan, also after one that fails, are those before it or of its steps. -/
theorem mem_targets_follow {query : Query} (h : target ∈ (query.follow plan).targets) :
    target ∈ query.targets ∨ ∃ step ∈ plan.steps, target = step.path.toTarget := by
  rw [targets, conditions_follow, ordering_follow, List.flatMap_append, List.map_append,
    List.mem_append, List.mem_append, List.mem_append] at h
  rw [targets, List.mem_append]
  rcases h with (hold | hnew) | hold | hnew
  · exact .inl (.inl hold)
  · obtain ⟨condition, hcondition, htarget⟩ := List.mem_flatMap.1 hnew
    cases eq_conditionOf_of_mem hcondition
    exact .inr (mem_targets_conditionOf htarget)
  · exact .inl (.inr hold)
  · exact .inr (mem_targets_clausesOf hnew)

end Query

end AttributeFilter
