import AttributeFilter.Filter.Condition
import AttributeFilter.Request
import AttributeFilter.Schema.Path

/-!
# Plans

What a filter does for a request is worked out before any query is touched: the steps it takes, in
the order of the parameters, and how it ends. Whoever builds a query carries the plan out.

## Main definitions

* `Step`: an attribute and what is done with it.
* `Plan`: steps and an ending. A filter that has no parameters to look at is idle.
* `Filter.parametersOf?`: the parameters that a filter looks at.
* `Filter.step?`, `Filter.planFor`, `Filter.plan`: the plan for a parameter, for parameters, and
  for a request.
* `Plan.calls`: the calls on a query builder that carry a plan out.

## Main results

* `Filter.plan_none`: without a request nothing happens.
-/

namespace AttributeFilter

/-- An attribute and what is done with it. -/
structure Step where
  path : AttributePath
  effect : Effect

/-- How a filter ends: without looking at any parameter, with all of them looked at, or at an
error. -/
inductive Ending
  | idle
  | concluded
  | failed (error : Error)
  deriving DecidableEq, Repr

structure Plan where
  steps : List Step
  ending : Ending

namespace Step

def test? (step : Step) : Option (AttributePath × Test) :=
  match step.effect with
  | .test test => some (step.path, test)
  | _ => none

def order? (step : Step) : Option (AttributePath × Direction) :=
  match step.effect with
  | .order direction => some (step.path, direction)
  | _ => none

end Step

namespace Plan

def idle : Plan :=
  { steps := [], ending := .idle }

def cons (step : Step) (plan : Plan) : Plan :=
  { plan with steps := step :: plan.steps }

def error? (plan : Plan) : Option Error :=
  match plan.ending with
  | .failed error => some error
  | _ => none

def tests (plan : Plan) : List (AttributePath × Test) :=
  plan.steps.filterMap Step.test?

def orders (plan : Plan) : List (AttributePath × Direction) :=
  plan.steps.filterMap Step.order?

end Plan

/-! ### Making a plan -/

namespace Filter

/-- A property as its name arrives with dots flattened. -/
def flattenedName (property : String) : String :=
  String.ofList (property.toList.map fun c => if c = segmentSeparator then '_' else c)

/-- Whether a listed dotted property may have arrived flattened. -/
def needsExpansion (filter : Filter) (request : Request) : Bool :=
  filter.properties.entries.any fun entry =>
    isDotted entry.1 && request.has (flattenedName entry.1)

/-- The parameters of a request, with dots kept if the filter needs them. -/
def extract (filter : Filter) (request : Request) : Parameters :=
  if filter.needsExpansion request then request.expanded else request.query

/-- The parameters that a filter looks at: an order filter those in the map of the order
parameter, any other filter all of them. -/
def parametersOf? (filter : Filter) (request : Request) : Option Parameters :=
  let parameters := filter.extract request
  match filter.kind with
  | .order =>
    match Keyed.get? orderParameter parameters with
    | some (.map order) => some order
    | _ => none
  | _ => some parameters

/-- The step for a parameter; none if the filter does not handle the property, or values of the
type of its attribute. -/
def step? (filter : Filter) (registry : Registry) (resource property : String)
    (value : Parameter) : Except Error (Option Step) :=
  if filter.properties.contains property then do
    let family ← registry.resolve filter.family resource
    let path ← registry.path family property
    if filter.handles path.target.semantic then
      let effect ← filter.effect property value
      return some { path, effect }
    else return none
  else return none

/-- The plan for parameters. It ends at the first error. -/
def planFor (filter : Filter) (registry : Registry) (resource : String) : Parameters → Plan
  | [] => { steps := [], ending := .concluded }
  | (property, value) :: rest =>
    match filter.step? registry resource property value with
    | .error error => { steps := [], ending := .failed error }
    | .ok none => filter.planFor registry resource rest
    | .ok (some step) => (filter.planFor registry resource rest).cons step

def plan (filter : Filter) (registry : Registry) (request : Option Request) (resource : String) :
    Plan :=
  match request.bind filter.parametersOf? with
  | none => .idle
  | some parameters => filter.planFor registry resource parameters

/-- Without a request nothing happens. -/
@[simp] theorem plan_none (filter : Filter) (registry : Registry) (resource : String) :
    filter.plan registry none resource = .idle := rfl

end Filter

/-! ### Calls on a query builder -/

/-- A call on a query builder: scoping to an attribute, ordering by it, combining so many
conditions, and attaching their conjunction. -/
inductive Call
  | scope (path : AttributePath)
  | orderBy (path : AttributePath) (direction : Direction)
  | combine (count : Nat)
  | attach (tests : List (AttributePath × Test))

namespace Step

/-- The calls for a step. Making a test is not a call. -/
def calls (step : Step) : List Call :=
  match step.effect with
  | .order direction => [.scope step.path, .orderBy step.path direction]
  | _ => [.scope step.path]

end Step

namespace Plan

/-- The calls that carry a plan out. Conditions are attached at the end, if there is no error. -/
def calls (plan : Plan) : List Call :=
  plan.steps.flatMap Step.calls ++
    match plan.ending with
    | .concluded => [.combine plan.tests.length, .attach plan.tests]
    | _ => []

end Plan

end AttributeFilter
