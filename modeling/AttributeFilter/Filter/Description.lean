import AttributeFilter.Filter.Basic
import AttributeFilter.Schema.Path

/-!
# Descriptions of filters

A filter tells which parameters it accepts for a resource.

## Main definitions

* `Descriptor`: what is told of a parameter.
* `Description`: descriptors under the names of parameters, in order.
* `Filter.valueEntries`, `Filter.orderEntries`: the entries for one property.
* `Filter.describe`: the description of a filter.

## Main results

* `Filter.nodup_keys_describeFrom`: no parameter is described twice.
-/

namespace AttributeFilter

/-- What is told of a parameter. No parameter of a filter is required. -/
structure Descriptor where
  property : String
  semantic : SemanticType
  strategy : Option String
  isRequired : Bool := false
  deriving DecidableEq, Repr

/-- Descriptors under the names of parameters, in order. -/
abbrev Description := List (String × Descriptor)

namespace Filter

/-- The name under which a list of values is given. -/
def listName (property : String) : String :=
  property ++ "[]"

/-- The name under which the order by a property is given. -/
def orderName (property : String) : String :=
  orderParameter ++ "[" ++ property ++ "]"

/-- The entries of a filter on values. References are first told as texts that are matched
exactly; then the property with its type, and its list if it is matched exactly. -/
def valueEntries (field : Attribute) (property : String) (strategy : Option String) :
    Description :=
  let exact := SearchStrategy.exact.name
  let told (semantic : SemanticType) (strategy : String) : Descriptor :=
    { property, semantic, strategy := some strategy }
  let referenced :=
    if field.isReference then
      [(property, told .string exact), (listName property, told .string exact)]
    else []
  let strategy := strategy.getD exact
  let listed :=
    if strategy = exact then [(listName property, told field.semantic strategy)] else []
  referenced ++ (property, told field.semantic strategy) :: listed

/-- The entry of an order filter. The strategy is the default direction. -/
def orderEntries (field : Attribute) (property : String) (strategy : Option String) :
    Description :=
  [(orderName property, { property, semantic := field.semantic, strategy })]

def entriesFor (filter : Filter) (field : Attribute) (property : String)
    (strategy : Option String) : Description :=
  match filter.kind with
  | .order => orderEntries field property strategy
  | _ => valueEntries field property strategy

/-- The properties that a filter describes for a family: those listed, or every attribute. -/
def describedProperties (filter : Filter) (family : Family) : List (String × Option String) :=
  match filter.properties with
  | .all => family.codes.map fun code => (code, none)
  | .listed strategies _ => strategies

/-- The entries that a property gives: none if the family has no such property, or if the filter
does not support the type of its attribute. -/
def entriesOf (filter : Filter) (registry : Registry) (family : Family) (property : String)
    (strategy : Option String) : Except Error Description :=
  match registry.path family property with
  | .ok path =>
    if filter.types.contains path.target.semantic then
      .ok (filter.entriesFor path.target property strategy)
    else .ok []
  | .error (.unknownAttribute _ _) => .ok []
  | .error error => .error error

/-- Adds the entries of properties, one after the other, to a description. -/
def describeFrom (filter : Filter) (registry : Registry) (family : Family) :
    Description → List (String × Option String) → Except Error Description
  | description, [] => .ok description
  | description, (property, strategy) :: rest => do
    let entries ← filter.entriesOf registry family property strategy
    filter.describeFrom registry family (Keyed.extend description entries) rest

/-- The parameters that a filter accepts for a resource. -/
def describe (filter : Filter) (registry : Registry) (resource : String) :
    Except Error Description := do
  let family ← registry.resolve filter.family resource
  filter.describeFrom registry family [] (filter.describedProperties family)

theorem nodup_keys_describeFrom {filter : Filter} {registry : Registry} {family : Family} :
    {properties : List (String × Option String)} → {description result : Description} →
      (Keyed.keys description).Nodup →
      filter.describeFrom registry family description properties = .ok result →
        (Keyed.keys result).Nodup
  | [], _, _, h, hr => by
    cases hr
    exact h
  | (property, strategy) :: rest, description, result, h, hr => by
    rw [describeFrom] at hr
    cases he : filter.entriesOf registry family property strategy with
    | error error =>
      rw [he] at hr
      cases hr
    | ok entries =>
      rw [he] at hr
      exact nodup_keys_describeFrom (Keyed.nodup_keys_extend entries h) hr

end Filter

end AttributeFilter
