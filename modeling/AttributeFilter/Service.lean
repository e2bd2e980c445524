import AttributeFilter.Configuration.Settings
import AttributeFilter.Filter.Description
import AttributeFilter.Query.Basic
import AttributeFilter.Schema.Metadata

/-!
# The filter service

The registry of families and the configured filters under their names. An operation on a resource
lists the filters that apply to it; they run in that order.

## Main definitions

* `Service`, `Service.create`: the service for settings. A filter that cannot be made is an error
  here.
* `Service.describe`: the merged descriptions of filters.
* `Service.apply`: applies filters to a query, up to the first error.
* `Service.query`, `Service.findItem`: a query for a resource, and the record that a text
  identifies.

## Main results

* `Service.apply_append`: applying more filters goes on where the first ones ended.
-/

namespace AttributeFilter

structure Service where
  registry : Registry
  filters : List (String × Filter)
  ignored : List String

namespace Service

def createFilters : List (String × FilterSettings) → Except Error (List (String × Filter))
  | [] => .ok []
  | (name, settings) :: rest => do
    let filter ← Filter.create settings.spec
    return (name, filter) :: (← createFilters rest)

def create (registry : Registry) (settings : Settings) : Except Error Service := do
  let filters ← createFilters settings.namedFilters
  return { registry, filters, ignored := settings.ignoredProperties }

/-- The filter with the name; it is an error if there is none. -/
def getFilter (service : Service) (name : String) : Except Error Filter :=
  match Keyed.get? name service.filters with
  | some filter => .ok filter
  | none => .error (.unknownFilter name)

/-- Adds the descriptions of filters, one after the other, to a description. -/
def describeFrom (service : Service) (resource : String) :
    Description → List String → Except Error Description
  | description, [] => .ok description
  | description, name :: rest => do
    let filter ← service.getFilter name
    let more ← filter.describe service.registry resource
    service.describeFrom resource (Keyed.extend description more) rest

/-- The merged descriptions of filters. A later filter has the last word on a parameter. -/
def describe (service : Service) (resource : String) (names : List String) :
    Except Error Description :=
  service.describeFrom resource [] names

/-- Applies filters for a request, up to the first error; the error is given beside the query as
far as it came. -/
def apply (service : Service) (request : Option Request) (resource : String) :
    List String → Query → Query × Option Error
  | [], query => (query, none)
  | name :: rest, query =>
    match service.getFilter name with
    | .error error => (query, some error)
    | .ok filter =>
      match query.apply service.registry filter request resource with
      | (query, some error) => (query, some error)
      | (query, none) => service.apply request resource rest query

/-- Applying more filters goes on where the first ones ended, if they ended without error. -/
theorem apply_append (service : Service) (request : Option Request) (resource : String) :
    (first more : List String) → (query : Query) →
      service.apply request resource (first ++ more) query =
        match service.apply request resource first query with
        | (query, some error) => (query, some error)
        | (query, none) => service.apply request resource more query
  | [], more, query => rfl
  | name :: rest, more, query => by
    rw [List.cons_append, apply, apply]
    cases service.getFilter name with
    | error error => rfl
    | ok filter =>
      simp only
      cases hq : query.apply service.registry filter request resource with
      | mk applied error? =>
        cases error? with
        | some error => rfl
        | none => exact apply_append service request resource rest more applied

/-- The codes of a resource's attributes but for the ignored ones. -/
def propertyNames (service : Service) (resource : String) : Except Error (List String) :=
  service.registry.propertyNames resource service.ignored

def propertyMetadata (service : Service) (resource property : String) :
    Except Error PropertyMetadata :=
  service.registry.propertyMetadata resource property

/-- The query for all records of the family that governs a resource. -/
def query (service : Service) (resource : String) : Except Error Query := do
  let family ← service.registry.governing resource
  return { family := family.code }

def findItem (service : Service) (store : Store) (resource raw : String) :
    Except Error (Option Record) := do
  let family ← service.registry.governing resource
  return store.findByIdentifier family raw

end Service

end AttributeFilter
