import AttributeFilter.Configuration.Settings
import AttributeFilter.Schema.Family
import AttributeFilter.Toml.Basic

/-!
# Settings and schemas from TOML

The tables of a settings file are read as settings, and those of a schema file as families. Names
that mean nothing are passed over, but what stands under them must be readable. A record may also be
given as an array of its fields in order; what follows the last field is not looked at.

## Main definitions

* `Decode.Fields`: the named fields of a record.
* `Decode.fieldsOfTable?`, `Decode.fields?`: the fields in a table, and in either form.
* `Settings.ofToml?`: settings.
* `FamilySettings.listOfToml?`: the families of a schema under their codes.
-/

namespace AttributeFilter

namespace Decode

/-- The named fields of a record. -/
abbrev Fields := List (String × Toml)

/-- The fields of a record in a table. Other entries are passed over once they have been read. -/
def fieldsOfTable? (names : List String) (value : Toml) : Option Fields :=
  value.entries?.filter fun entries =>
    entries.all fun entry => names.contains entry.1 || entry.2.isReadable

/-- The fields of a record: the entries of a table, or the items of an array in the order of the
names. -/
def fields? (names : List String) : Toml → Option Fields
  | .array items => some (names.zip items)
  | value => fieldsOfTable? names value

def required? {α : Type} (fields : Fields) (name : String) (decode : Toml → Option α) : Option α :=
  (Keyed.get? name fields).bind decode

def optional? {α : Type} (fields : Fields) (name : String) (decode : Toml → Option α) :
    Option (Option α) :=
  match Keyed.get? name fields with
  | none => some none
  | some value => (decode value).map some

/-- A field that has a value of its own if it is left out. -/
def withDefault? {α : Type} (fields : Fields) (name : String) (default : α)
    (decode : Toml → Option α) : Option α :=
  (optional? fields name decode).map (·.getD default)

def list? {α : Type} (decode : Toml → Option α) (value : Toml) : Option (List α) := do
  (← value.items?).mapM decode

def named? {α : Type} (decode : Toml → Option α) (value : Toml) : Option (List (String × α)) := do
  (← value.entries?).mapM fun entry => (decode entry.2).map fun item => (entry.1, item)

/-- The name of one of several cases: a text, or the only name in a table, with nothing under
it. -/
def case? : Toml → Option String
  | .string name => some name
  | .table [(name, .table [])] => some name
  | .table [(name, .array [])] => some name
  | _ => none

def kind? (value : Toml) : Option FilterKind :=
  (case? value).bind FilterKind.ofName?

def semantic? (value : Toml) : Option SemanticType :=
  (case? value).bind SemanticType.ofName?

/-- The properties of a filter: names, or names with strategies. -/
def properties? (value : Toml) : Option DeclaredProperties :=
  ((list? Toml.text? value).map DeclaredProperties.plain).or
    ((named? Toml.text? value).map DeclaredProperties.withStrategies)

def filter? (value : Toml) : Option FilterSettings := do
  let fields ← fields? ["kind", "family", "supported_types", "properties"] value
  return {
    kind := ← required? fields "kind" kind?
    family := ← optional? fields "family" Toml.text?
    types := ← optional? fields "supported_types" (list? semantic?)
    properties := ← optional? fields "properties" properties? }

def attribute? (value : Toml) : Option AttributeSettings := do
  let fields ← fields?
    ["type", "relation", "embedded", "collection", "required", "options"] value
  return {
    storage := ← (required? fields "type" Toml.text?).map StorageType.ofTag
    isRelation := ← withDefault? fields "relation" false Toml.bool?
    isEmbedded := ← withDefault? fields "embedded" false Toml.bool?
    isCollection := ← withDefault? fields "collection" false Toml.bool?
    isRequired := ← withDefault? fields "required" false Toml.bool?
    options := ← withDefault? fields "options" [] (named? Toml.toJson?) }

def family? (value : Toml) : Option FamilySettings := do
  let fields ← fields? ["data_class", "label", "identifier", "attributes"] value
  return {
    dataClass := ← required? fields "data_class" Toml.text?
    label := ← optional? fields "label" Toml.text?
    identifier := ← optional? fields "identifier" Toml.text?
    fields := ← withDefault? fields "attributes" [] (named? attribute?) }

end Decode

open Decode in
def Settings.ofToml? (value : Toml) : Option Settings := do
  let fields ← fieldsOfTable? ["schema", "ignored_attributes", "filters"] value
  return {
    schema := ← optional? fields "schema" Toml.text?
    ignored := ← optional? fields "ignored_attributes" (list? Toml.text?)
    filters := ← optional? fields "filters" (named? filter?) }

open Decode in
/-- The families in a schema file, under their codes. -/
def FamilySettings.listOfToml? (value : Toml) : Option (List (String × FamilySettings)) := do
  let fields ← fieldsOfTable? ["families"] value
  withDefault? fields "families" [] (named? family?)

end AttributeFilter
