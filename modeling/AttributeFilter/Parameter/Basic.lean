import AttributeFilter.Json

/-!
# Parameter trees

The parameters of a request form a tree: a parameter is a text, a list of parameters, or named
parameters in the order in which the names first came.

## Main definitions

* `Parameter`: a parameter.
* `Parameter.Segment`, `Parameter.assign`: a step into a tree, and writing a text at the end of
  some steps.
* `Parameter.scalars`: the texts that a parameter directly holds.
* `Parameter.toJson`: the parameter as a structured value.

## Main results

* `Parameter.assign_nil`, `Parameter.assign_append`, `Parameter.assign_key`: writing step by step.
-/

namespace AttributeFilter

inductive Parameter
  | scalar (text : String)
  | list (items : List Parameter)
  | map (entries : List (String × Parameter))
  deriving Repr, Inhabited

/-- Named parameters in the order of their first mention. -/
abbrev Parameters := List (String × Parameter)

namespace Parameter

/-- The map of the entries; a repeated name keeps its first place and its last value. -/
def ofEntries (entries : List (String × Parameter)) : Parameter :=
  map (Keyed.ofList entries)

def text? : Parameter → Option String
  | scalar text => some text
  | _ => none

/-- The items of a list; any other parameter has none. -/
def items : Parameter → List Parameter
  | list items => items
  | _ => []

/-- The entries of a map; any other parameter has none. -/
def entries : Parameter → Parameters
  | map entries => entries
  | _ => []

/-- The texts a parameter directly holds: a scalar's own, or those of the scalars in a list. -/
def scalars : Parameter → List String
  | scalar text => [text]
  | list items => items.filterMap text?
  | map _ => []

/-- The parameter that a name or an appended item starts out as. -/
def blank : Parameter :=
  scalar ""

/-- A step into a parameter tree: to a new item at the end of a list, or to a named entry. -/
inductive Segment
  | append
  | key (name : String)
  deriving DecidableEq, Repr

/-- Writes a text at the end of the steps. A parameter of the kind that a step needs is kept and
extended; one of another kind gives way to an empty one. -/
def assign (text : String) : List Segment → Parameter → Parameter
  | [], _ => scalar text
  | .append :: rest, slot => list (slot.items ++ [assign text rest blank])
  | .key name :: rest, slot => map (Keyed.update name blank (assign text rest) slot.entries)

@[simp] theorem assign_nil (text : String) (slot : Parameter) :
    assign text [] slot = scalar text := rfl

@[simp] theorem assign_append (text : String) (rest : List Segment) (slot : Parameter) :
    assign text (.append :: rest) slot = list (slot.items ++ [assign text rest blank]) := rfl

@[simp] theorem assign_key (text name : String) (rest : List Segment) (slot : Parameter) :
    assign text (.key name :: rest) slot =
      map (Keyed.update name blank (assign text rest) slot.entries) := rfl

mutual

def toJson : Parameter → Json
  | scalar text => .string text
  | list items => .array (toJsonItems items)
  | map entries => .object (toJsonEntries entries)

def toJsonItems : List Parameter → List Json
  | [] => []
  | item :: rest => toJson item :: toJsonItems rest

def toJsonEntries : List (String × Parameter) → List (String × Json)
  | [] => []
  | (name, value) :: rest => (name, toJson value) :: toJsonEntries rest

end

end Parameter

end AttributeFilter
