import AttributeFilter.Schema.Registry

/-!
# Property paths

A property of a request is resolved to an attribute. The code of an attribute comes first, then
the designations of the family, then a dotted name, which goes from attribute to attribute through
references that allow a single family.

## Main definitions

* `AttributePath`: an attribute and the references passed on the way to it.
* `Registry.follow`: the way along the segments of a dotted name.
* `Registry.path`: the path of a property.

## Main results

* `Registry.follow_cons`: the first reference of a way decides where the rest of it starts.
* `Registry.path_of_declared`: an attribute's own code comes first.
-/

namespace AttributeFilter

/-- A property resolved to an attribute. The hops are the references passed on the way. -/
structure AttributePath where
  property : String
  root : Family
  hops : List Attribute
  target : Attribute

def segmentSeparator : Char := '.'

def isDotted (property : String) : Bool :=
  property.toList.contains segmentSeparator

def segmentsOf (property : String) : List String :=
  (property.toList.splitOn segmentSeparator).map String.ofList

def Role.ofName? (property : String) : Option Role :=
  if property = Role.label.name then some .label
  else if property = Role.identifier.name then some .identifier
  else none

namespace AttributePath

def isNested (path : AttributePath) : Bool :=
  !path.hops.isEmpty

/-- The path of an attribute of the family itself. -/
def direct (family : Family) (property : String) (field : Attribute) : AttributePath :=
  { property, root := family, hops := [], target := field }

end AttributePath

namespace Registry

def targetOf (registry : Registry) (field : Attribute) : Except Error Family :=
  match field.traversable? with
  | some code => registry.getFamily code
  | none => .error (.unexpectedSchema field.code)

/-- The references passed and the attribute reached along the segments, from the family on. -/
def follow (registry : Registry) : Family → String → List String →
    Except Error (List Attribute × Attribute)
  | family, segment, [] => do
    let field ← family.getAttribute segment
    return ([], field)
  | family, segment, next :: rest => do
    let hop ← family.getAttribute segment
    let target ← registry.targetOf hop
    let (hops, field) ← registry.follow target next rest
    return (hop :: hops, field)

def dottedPath (registry : Registry) (family : Family) (property : String) :
    Except Error AttributePath :=
  match segmentsOf property with
  | [] => .error (.unknownAttribute family.code property)
  | segment :: rest => do
    let (hops, target) ← registry.follow family segment rest
    return { property, root := family, hops, target }

/-- The path of a property: an attribute's code, else a designation, else a dotted name. -/
def path (registry : Registry) (family : Family) (property : String) :
    Except Error AttributePath :=
  match family.attribute? property with
  | some field => .ok (.direct family property field)
  | none =>
    match Role.ofName? property with
    | some role =>
      match family.designated? role with
      | some field => .ok (.direct family property field)
      | none => .error (.unknownAttribute family.code property)
    | none =>
      if isDotted property then registry.dottedPath family property
      else .error (.unknownAttribute family.code property)

theorem follow_nil (registry : Registry) (family : Family) (segment : String) :
    registry.follow family segment [] =
      (family.getAttribute segment).map fun field => ([], field) := by
  unfold follow
  cases family.getAttribute segment <;> rfl

/-- The first reference of a way decides where the rest of it starts. -/
theorem follow_cons {registry : Registry} {family target : Family} {hop : Attribute}
    {segment : String} (hhop : family.getAttribute segment = .ok hop)
    (htarget : registry.targetOf hop = .ok target) (next : String) (rest : List String) :
    registry.follow family segment (next :: rest) =
      (registry.follow target next rest).map fun way => (hop :: way.1, way.2) := by
  rw [follow]
  simp only [hhop, htarget, bind, Except.bind]
  cases registry.follow target next rest <;> rfl

/-- An attribute's own code comes first. -/
theorem path_of_declared {registry : Registry} {family : Family} {property : String}
    {field : Attribute} (h : family.attribute? property = some field) :
    registry.path family property = .ok (.direct family property field) := by
  simp [path, h]

end Registry

end AttributeFilter
