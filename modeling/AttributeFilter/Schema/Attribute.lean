import AttributeFilter.Json
import AttributeFilter.Schema.StorageType

/-!
# Attributes

An attribute is a named, typed field of a family. Its values may be data of other families, either
pointed at or kept in place; which families those are is one of its free-form options.

## Main definitions

* `AttributeSettings`: what a schema says of an attribute.
* `Attribute`: an attribute together with its code and the code of the family that owns it.
* `Attribute.allowedFamilies`, `Attribute.soleFamily?`: the families its values may belong to.
* `Attribute.traversable?`: the family that a dotted property name goes on in.
-/

namespace AttributeFilter

structure AttributeSettings where
  storage : StorageType
  isRelation : Bool := false
  isEmbedded : Bool := false
  isCollection : Bool := false
  isRequired : Bool := false
  options : List (String × Json) := []
  deriving Repr

namespace AttributeSettings

/-- The option that lists the families of an attribute's values. -/
def allowedFamiliesKey : String := "allowed_families"

def withOption (settings : AttributeSettings) (key : String) (value : Json) : AttributeSettings :=
  { settings with options := Keyed.insert key value settings.options }

def allowing (settings : AttributeSettings) (families : List String) : AttributeSettings :=
  settings.withOption allowedFamiliesKey (.array (families.map .string))

def relatedTo (settings : AttributeSettings) (families : List String) : AttributeSettings :=
  { settings.allowing families with isRelation := true }

/-- Makes the values data of the families, kept in place. -/
def embedding (settings : AttributeSettings) (families : List String) : AttributeSettings :=
  { settings.allowing families with isEmbedded := true }

end AttributeSettings

structure Attribute extends AttributeSettings where
  code : String
  family : String
  deriving Repr

namespace Attribute

def option? (field : Attribute) (key : String) : Option Json :=
  Keyed.get? key field.options

/-- What a client sends and receives for the attribute. -/
def semantic (field : Attribute) : SemanticType :=
  field.storage.semantic

/-- Whether values are data of another family. -/
def isReference (field : Attribute) : Bool :=
  field.isRelation || field.isEmbedded

/-- The families that values may belong to: a list of codes, of which those that are no text are
passed over, or a single code. -/
def allowedFamilies (field : Attribute) : List String :=
  match field.option? AttributeSettings.allowedFamiliesKey with
  | some (.array items) => items.filterMap Json.text?
  | some (.string code) => [code]
  | _ => []

/-- The only family that values may belong to, if there is just one. -/
def soleFamily? (field : Attribute) : Option String :=
  match field.allowedFamilies with
  | [code] => some code
  | _ => none

/-- The family that a dotted property name goes on in after the attribute. -/
def traversable? (field : Attribute) : Option String :=
  if field.isReference then field.soleFamily? else none

/-- The description among the options. -/
def description? (field : Attribute) : Option String :=
  (field.option? "description").bind Json.text?

end Attribute

end AttributeFilter
