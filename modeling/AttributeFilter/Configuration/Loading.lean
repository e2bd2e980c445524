import AttributeFilter.Configuration.Decode
import AttributeFilter.Configuration.FileTree
import AttributeFilter.Service
import AttributeFilter.Toml.Document

/-!
# Loading settings and schemas

Settings are layered: the environment over a file over defaults. The schema that the settings name
is looked for from the directory of the settings file on.

## Main definitions

* `Registry.load`: the registry of a schema file.
* `Settings.load`: settings from a file and the environment.
* `Service.load`: the service for settings, with the registry of the schema they name.
-/

namespace AttributeFilter

def Registry.load (files : FileTree) (path : String) : Except Error Registry :=
  match files.read path with
  | .content text =>
    match (Toml.ofText? text).bind FamilySettings.listOfToml? with
    | some definitions => Registry.ofSchema definitions
    | none => .error .malformedSchema
  | _ => .error .unreadableFile

namespace Settings

def fileExtension : String := "toml"

/-- The settings in the file at a path; a file that is not there leaves the defaults. -/
def ofFile (files : FileTree) (path : String) : Except Error Settings :=
  match files.read path with
  | .missing => .ok {}
  | .unreadable => .error .malformedSettings
  | .content text =>
    match (Toml.ofText? text).bind Settings.ofToml? with
    | some settings => .ok settings
    | none => .error .malformedSettings

/-- The settings in a file, the schema given by the environment if it gives one. The schema is
looked for from the directory of the file on. -/
def load (files : FileTree) (path : String) (environment : Option String) :
    Except Error Settings := do
  if FilePath.extension? path = some fileExtension then
    let settings ← ofFile files path
    let schema := environment.or settings.schema
    return { settings with schema := schema.map (FilePath.join (FilePath.parent path)) }
  else throw .malformedSettings

end Settings

/-- The service for settings. They must name a schema. -/
def Service.load (files : FileTree) (settings : Settings) : Except Error Service := do
  match settings.schema with
  | none => throw (.invalidSchema .noSchemaFile)
  | some path =>
    let registry ← Registry.load files path
    Service.create registry settings

end AttributeFilter
