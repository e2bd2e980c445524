import AttributeFilter.Filter.Basic

/-!
# Settings

What can be configured: the file of the schema, the properties that are not shown, and filters
under names.

## Main definitions

* `DeclaredProperties`: the properties of a filter as they are configured.
* `FilterSettings`: one configured filter; `FilterSettings.spec` fills in what is left out.
* `Settings`: all settings.
-/

namespace AttributeFilter

/-- The properties of a filter as they are configured: names alone, or names with strategies. -/
inductive DeclaredProperties
  | plain (names : List String)
  | withStrategies (strategies : List (String × String))
  deriving DecidableEq, Repr

namespace DeclaredProperties

/-- A configured strategy. The empty text means none. -/
def strategyOf (text : String) : Option String :=
  if text = "" then none else some text

def toPropertySet : DeclaredProperties → PropertySet
  | plain names => .ofList (names.map fun name => (name, none))
  | withStrategies strategies =>
    .ofList (strategies.map fun entry => (entry.1, strategyOf entry.2))

end DeclaredProperties

structure FilterSettings where
  kind : FilterKind
  family : Option String := none
  types : Option (List SemanticType) := none
  properties : Option DeclaredProperties := none
  deriving DecidableEq, Repr

namespace FilterSettings

/-- The specification of a configured filter: types that are left out are those of the kind, and
properties that are left out are all. -/
def spec (settings : FilterSettings) : FilterSpec where
  kind := settings.kind
  types := settings.types.getD settings.kind.defaultTypes
  properties := (settings.properties.map DeclaredProperties.toPropertySet).getD .all
  family := settings.family

end FilterSettings

structure Settings where
  schema : Option String := none
  ignored : Option (List String) := none
  filters : Option (List (String × FilterSettings)) := none
  deriving DecidableEq, Repr

namespace Settings

/-- The properties that are not shown. -/
def ignoredProperties (settings : Settings) : List String :=
  settings.ignored.getD ["values"]

/-- The configured filters; a repeated name keeps its first place and has its last filter. -/
def namedFilters (settings : Settings) : List (String × FilterSettings) :=
  Keyed.ofList (settings.filters.getD [])

end Settings

end AttributeFilter
