import AttributeFilter.Schema.Registry

/-!
# Documentation of resources

Which properties a resource has, and what each one looks like.

## Main definitions

* `Subresource`: the data that a reference to a single family makes reachable.
* `PropertyMetadata`: what is told of a property.
* `Registry.propertyNames`, `Registry.propertyMetadata`: the answers for a resource.
-/

namespace AttributeFilter

/-- Data reachable through a reference to a single family. -/
structure Subresource where
  family : String
  isCollection : Bool
  maxDepth : Nat
  deriving DecidableEq, Repr

structure PropertyMetadata where
  semantic : SemanticType
  description : Option String
  isRequired : Bool
  isIdentifier : Bool
  subresource : Option Subresource
  deriving DecidableEq, Repr

namespace Attribute

/-- How deep the data of a reference are shown: a whole number among the serializer options. -/
def maxDepth (field : Attribute) : Nat :=
  (((field.option? "serializer").bind (·.member? "max_depth")).bind Json.natural?).getD 0

/-- The data that a reference makes reachable, if it can be gone through. -/
def subresource? (field : Attribute) : Option Subresource :=
  field.traversable?.map fun family =>
    { family, isCollection := field.isCollection, maxDepth := field.maxDepth }

end Attribute

namespace Family

def isIdentifiedBy (family : Family) (field : Attribute) : Bool :=
  match family.designated? .identifier with
  | some identifier => identifier.code == field.code
  | none => false

end Family

namespace Registry

/-- The codes of a resource's attributes but for the ignored ones. -/
def propertyNames (registry : Registry) (resource : String) (ignored : List String) :
    Except Error (List String) := do
  let family ← registry.governing resource
  return family.codes.filter (!ignored.contains ·)

def propertyMetadata (registry : Registry) (resource property : String) :
    Except Error PropertyMetadata := do
  let family ← registry.governing resource
  let field ← family.getAttribute property
  return {
    semantic := field.semantic
    description := field.description?
    isRequired := field.isRequired
    isIdentifier := family.isIdentifiedBy field
    subresource := field.subresource?
  }

end Registry

end AttributeFilter
