import AttributeFilter.Filter.Plan
import AttributeFilter.Query.Predicate
import AttributeFilter.Query.StableSort

/-!
# Queries

A query asks for the records of a family for which all its conditions hold, in the order of its
clauses.

## Main definitions

* `Query`: family, conditions and order clauses.
* `Query.follow`: carries the plan of a filter out. A plan that fails attaches no condition, but
  keeps the order clauses of its steps.
* `Query.apply`: applies a filter for a request.
* `Query.order`: how two records lie to each other under the order clauses.
* `Query.execute`: the records of the family that satisfy all conditions, sorted.

## Main results

* `Query.mem_execute`: which records a query finds.
* `Query.conditions_follow_of_error`: a failing plan leaves the conditions alone.
-/

namespace AttributeFilter

structure Clause where
  target : Target
  direction : Direction
  deriving DecidableEq, Repr

structure Query where
  family : String
  conditions : List Predicate := []
  ordering : List Clause := []
  deriving Repr

namespace AttributePath

def toTarget (path : AttributePath) : Target :=
  { hops := path.hops.map Attribute.code, family := path.target.family, code := path.target.code }

end AttributePath

namespace Query

/-! ### Building -/

def attach (query : Query) (condition : Predicate) : Query :=
  { query with conditions := query.conditions ++ [condition] }

def orderBy (query : Query) (target : Target) (direction : Direction) : Query :=
  { query with ordering := query.ordering ++ [{ target, direction }] }

/-- The condition that the tests of a plan amount to. -/
def conditionOf (plan : Plan) : Predicate :=
  .conjunction (plan.tests.map fun entry => entry.2.toPredicate entry.1.toTarget)

def clausesOf (plan : Plan) : List Clause :=
  plan.orders.map fun entry => { target := entry.1.toTarget, direction := entry.2 }

def follow (query : Query) (plan : Plan) : Query :=
  let ordered := { query with ordering := query.ordering ++ clausesOf plan }
  match plan.ending with
  | .concluded => ordered.attach (conditionOf plan)
  | _ => ordered

/-- Applies a filter for a request. Beside the query it gives the error at which the filter ended,
if it did. -/
def apply (query : Query) (registry : Registry) (filter : Filter) (request : Option Request)
    (resource : String) : Query × Option Error :=
  let plan := filter.plan registry request resource
  (query.follow plan, plan.error?)

/-- A plan that fails leaves the conditions alone. -/
theorem conditions_follow_of_error {plan : Plan} {error : Error} (query : Query)
    (h : plan.error? = some error) : (query.follow plan).conditions = query.conditions := by
  unfold Plan.error? at h
  unfold follow
  split at h
  · next he => simp [he]
  · simp at h

/-! ### Order -/

/-- The value that a record is ordered by: the first one reached. -/
def key (store : Store) (target : Target) (record : Record) : Option Value :=
  (store.valuesAt record target).head?

/-- How two keys lie to each other. A record without value comes last in both directions; values
that cannot be compared count as equal. -/
def compareKeys (direction : Direction) : Option Value → Option Value → Ordering
  | none, none => .eq
  | none, some _ => .gt
  | some _, none => .lt
  | some a, some b =>
    let ordering := (a.compare? b).getD .eq
    match direction with
    | .ascending => ordering
    | .descending => ordering.swap

/-- How two records lie to each other: the first clause that tells them apart decides. -/
def order (store : Store) : List Clause → Record → Record → Ordering
  | [], _, _ => .eq
  | clause :: rest, a, b =>
    (compareKeys clause.direction (key store clause.target a) (key store clause.target b)).then
      (order store rest a b)

/-! ### Execution -/

def admits (query : Query) (store : Store) (registry : Registry) (record : Record) : Bool :=
  query.conditions.all (·.holds store registry record)

/-- The records of the family that satisfy all conditions, as they are stored. -/
def matching (query : Query) (store : Store) (registry : Registry) : List Record :=
  (store.ofFamily query.family).filter (query.admits store registry)

def execute (query : Query) (store : Store) (registry : Registry) : List Record :=
  StableSort.sort (order store query.ordering) (query.matching store registry)

/-- A query finds the records of its family that satisfy all conditions. -/
theorem mem_execute {query : Query} {store : Store} {registry : Registry} {record : Record} :
    record ∈ query.execute store registry ↔
      record ∈ store.records ∧ record.family = query.family ∧
        query.admits store registry record = true := by
  simp only [execute, StableSort.mem_sort, matching, Store.ofFamily, List.mem_filter, beq_iff_eq,
    and_assoc]

end Query

end AttributeFilter
