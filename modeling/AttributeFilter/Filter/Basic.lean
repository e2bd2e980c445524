import AttributeFilter.Keyed
import AttributeFilter.Pattern.Strategy
import AttributeFilter.Schema.StorageType

/-!
# Filters

A filter turns parameters of a request into conditions on a query, or into its order. It has a
kind, the semantic types it handles, the properties it handles, and possibly a family that it is
pinned to.

## Main definitions

* `FilterKind`: what a filter makes of a value.
* `PropertySet`: the properties a filter handles, each with an optional strategy.
* `FilterSpec`: what a filter is made of.
* `Filter`, `Filter.create`: a filter, whose search strategies are known to exist.

## Main results

* `Filter.searchStrategy_isOk`: a search filter has a strategy for every property.
* `FilterSpec.invalidStrategy?_eq_none_iff`: which specifications make a filter.
-/

namespace AttributeFilter

/-- What a filter makes of a value: a condition on truth, on equality or on a pattern, or an
order. -/
inductive FilterKind
  | boolean
  | numeric
  | search
  | order
  deriving DecidableEq, Repr

namespace FilterKind

def name : FilterKind → String
  | boolean => "boolean"
  | numeric => "numeric"
  | search => "search"
  | order => "order"

def all : List FilterKind :=
  [boolean, numeric, search, order]

def ofName? (name : String) : Option FilterKind :=
  all.find? (·.name == name)

/-- The semantic types that a filter handles if it does not say otherwise. -/
def defaultTypes : FilterKind → List SemanticType
  | boolean => [.bool]
  | numeric => [.int, .float]
  | search => [.string]
  | order => [.int, .bool, .datetime, .float, .string]

end FilterKind

/-- The parameter that order filters read. -/
def orderParameter : String := "order"

/-- The properties that a filter handles: every attribute of the family, or those listed, each
with an optional strategy. -/
inductive PropertySet
  | all
  | listed (strategies : List (String × Option String)) (distinct : (Keyed.keys strategies).Nodup)
  deriving DecidableEq

namespace PropertySet

/-- The listed properties; a repeated one keeps its first place and its last strategy. -/
def ofList (strategies : List (String × Option String)) : PropertySet :=
  listed (Keyed.ofList strategies) (Keyed.nodup_keys_ofList strategies)

def entries : PropertySet → List (String × Option String)
  | all => []
  | listed strategies _ => strategies

/-- Whether the property is handled. -/
def contains : PropertySet → String → Bool
  | all, _ => true
  | listed strategies _, property => Keyed.contains property strategies

def strategy? (properties : PropertySet) (property : String) : Option String :=
  (Keyed.get? property properties.entries).join

end PropertySet

structure FilterSpec where
  kind : FilterKind
  types : List SemanticType
  properties : PropertySet
  family : Option String

namespace FilterSpec

/-- Whether the filter handles values of the type. Values of mixed type are never handled. -/
def handles (spec : FilterSpec) (semantic : SemanticType) : Bool :=
  semantic != .mixed && spec.types.contains semantic

/-- The first of some strategies that does not exist. -/
def missingStrategy? : List (String × Option String) → Option Error
  | [] => none
  | entry :: rest =>
    match SearchStrategy.ofName entry.2 with
    | .ok _ => missingStrategy? rest
    | .error error => some error

/-- The error of a search filter with a strategy that does not exist. -/
def invalidStrategy? (spec : FilterSpec) : Option Error :=
  if spec.kind = .search then missingStrategy? spec.properties.entries else none

theorem missingStrategy?_eq_none_iff : (strategies : List (String × Option String)) →
    (missingStrategy? strategies = none ↔
      ∀ entry ∈ strategies, (SearchStrategy.ofName entry.2).toOption.isSome)
  | [] => by simp [missingStrategy?]
  | entry :: rest => by
    rw [List.forall_mem_cons, ← missingStrategy?_eq_none_iff rest, missingStrategy?]
    cases SearchStrategy.ofName entry.2 <;> simp [Except.toOption]

/-- A specification makes a filter unless it searches by a strategy that does not exist. -/
theorem invalidStrategy?_eq_none_iff (spec : FilterSpec) :
    spec.invalidStrategy? = none ↔ (spec.kind = .search →
      ∀ entry ∈ spec.properties.entries, (SearchStrategy.ofName entry.2).toOption.isSome) := by
  by_cases h : spec.kind = .search
  · simp [invalidStrategy?, h, missingStrategy?_eq_none_iff]
  · simp [invalidStrategy?, h]

end FilterSpec

/-- A filter. If it searches, its strategies exist. -/
structure Filter extends FilterSpec where
  strategies_exist : toFilterSpec.invalidStrategy? = none

namespace Filter

/-- Makes a filter of a specification. A strategy that does not exist is an error here, and not
only when a request comes. -/
def create (spec : FilterSpec) : Except Error Filter :=
  match h : spec.invalidStrategy? with
  | none => .ok { toFilterSpec := spec, strategies_exist := h }
  | some error => .error error

def searchStrategy (filter : Filter) (property : String) : Except Error SearchStrategy :=
  SearchStrategy.ofName (filter.properties.strategy? property)

theorem searchStrategy_isOk {filter : Filter} (h : filter.kind = .search) (property : String) :
    ∃ strategy, filter.searchStrategy property = .ok strategy := by
  have hs := (FilterSpec.invalidStrategy?_eq_none_iff filter.toFilterSpec).1
    filter.strategies_exist h
  unfold searchStrategy PropertySet.strategy?
  cases hg : Keyed.get? property filter.properties.entries with
  | none => exact ⟨.exact, rfl⟩
  | some value =>
    have hv := hs _ (Keyed.mem_of_get?_eq_some hg)
    simp only [Option.join_some]
    cases ho : SearchStrategy.ofName value with
    | ok strategy => exact ⟨strategy, rfl⟩
    | error error => simp [ho, Except.toOption] at hv

end Filter

end AttributeFilter
