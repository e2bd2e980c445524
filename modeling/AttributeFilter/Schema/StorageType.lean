/-!
# Storage types and semantic types

The storage type of an attribute says how its values are kept; its semantic type says what a
client sends and receives. Filters choose by semantic type.

## Main definitions

* `StorageType`: the closed set of storage types, and any tag outside it.
* `SemanticType`: what clients see.
* `StorageType.semantic`: the semantic type of a storage type.

## Main results

* `StorageType.tag_ofTag`: a storage type remembers the tag it was read from.
-/

namespace AttributeFilter

inductive StorageType
  | integer
  | boolean
  | date
  | datetime
  | decimal
  | shortText
  | longText
  | entityReference
  | unrecognized (tag : String)
  deriving DecidableEq, Repr

/-- What a client sends and receives. Nothing can be asked of `mixed` values. -/
inductive SemanticType
  | int
  | bool
  | datetime
  | float
  | string
  | entity
  | mixed
  deriving DecidableEq, Repr

namespace SemanticType

def name : SemanticType → String
  | int => "int"
  | bool => "bool"
  | datetime => "datetime"
  | float => "float"
  | string => "string"
  | entity => "entity"
  | mixed => "mixed"

def all : List SemanticType :=
  [int, bool, datetime, float, string, entity, mixed]

def ofName? (name : String) : Option SemanticType :=
  all.find? (·.name == name)

end SemanticType

namespace StorageType

def tag : StorageType → String
  | integer => "integer"
  | boolean => "boolean"
  | date => "date"
  | datetime => "datetime"
  | decimal => "decimal"
  | shortText => "short-text"
  | longText => "long-text"
  | entityReference => "entity-reference"
  | unrecognized tag => tag

/-- The storage types with a meaning of their own. -/
def known : List StorageType :=
  [integer, boolean, date, datetime, decimal, shortText, longText, entityReference]

def ofTag (tag : String) : StorageType :=
  (known.find? (·.tag == tag)).getD (unrecognized tag)

def isUnrecognized : StorageType → Bool
  | unrecognized _ => true
  | _ => false

def semantic : StorageType → SemanticType
  | integer => .int
  | boolean => .bool
  | date => .datetime
  | datetime => .datetime
  | decimal => .float
  | shortText => .string
  | longText => .string
  | entityReference => .entity
  | unrecognized _ => .mixed

@[simp] theorem tag_ofTag (text : String) : (ofTag text).tag = text := by
  unfold ofTag
  cases h : known.find? (·.tag == text) with
  | none => rfl
  | some storage =>
    have hs := List.find?_some h
    exact beq_iff_eq.1 hs

end StorageType

end AttributeFilter
