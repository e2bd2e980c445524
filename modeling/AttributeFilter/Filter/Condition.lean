import AttributeFilter.Filter.Basic
import AttributeFilter.Parameter.Basic

/-!
# What a filter makes of a value

The value of a parameter becomes a test on the values of an attribute, or a direction to order
records by. Values of a shape that the kind of filter cannot use have no effect.

## Main definitions

* `Comparand`, `Test`, `Direction`: what attributes are tested for, and how records are ordered.
* `Effect`: what comes of a parameter.
* `readsAsTrue`: the truth value of a text.
* `Filter.effect`: the effect of a value under a filter.
-/

namespace AttributeFilter

/-- What the values of an attribute are compared with: a truth value, a text to be read as a value
of the stored kind, or any of some texts. -/
inductive Comparand
  | bool (value : Bool)
  | text (raw : String)
  | anyOf (raws : List String)
  deriving DecidableEq, Repr

inductive Test
  | equals (comparand : Comparand)
  | like (pattern : String)
  deriving DecidableEq, Repr

inductive Direction
  | ascending
  | descending
  deriving DecidableEq, Repr

namespace Direction

def name : Direction → String
  | ascending => "ASC"
  | descending => "DESC"

/-- The direction with the name, in any case of ASCII letters. -/
def ofText? (token : String) : Option Direction :=
  let upper := String.ofList (token.toList.map Char.toUpper)
  if upper = ascending.name then some ascending
  else if upper = descending.name then some descending
  else none

end Direction

/-- What comes of a parameter: a test, an order, or nothing. -/
inductive Effect
  | test (test : Test)
  | order (direction : Direction)
  | nothing
  deriving DecidableEq, Repr

/-- The truth value of a text. Apart from the usual tokens only the empty text is false. -/
def readsAsTrue (raw : String) : Bool :=
  if raw = "true" ∨ raw = "1" then true
  else if raw = "false" ∨ raw = "0" then false
  else raw != ""

namespace Comparand

/-- The texts of a value, converted. -/
def ofParameter (convert : String → String) : Parameter → Comparand
  | .scalar raw => text (convert raw)
  | value => anyOf (value.scalars.map convert)

end Comparand

namespace Effect

/-- A truth value tests for itself; a list is true if it holds any text. -/
def ofTruth : Parameter → Effect
  | .scalar raw => test (.equals (.bool (readsAsTrue raw)))
  | value => test (.equals (.bool (!value.scalars.isEmpty)))

/-- A text is searched by its pattern. A list can only be searched exactly, and then its texts
are compared as they are but for the wildcards around them. -/
def ofSearch (strategy : SearchStrategy) : Parameter → Effect
  | .scalar raw => test (.like (strategy.pattern raw))
  | value =>
    if strategy = .exact then test (.equals (.ofParameter SearchStrategy.bare value)) else nothing

/-- A text gives a direction. The empty text and `0` ask for the default direction, if there is
one. -/
def ofOrder (default? : Option String) : Parameter → Effect
  | .scalar token =>
    let token := if token = "" ∨ token = "0" then default?.getD token else token
    match Direction.ofText? token with
    | some direction => order direction
    | none => nothing
  | _ => nothing

end Effect

namespace Filter

/-- The effect of the value of a property. A map has none. -/
def effect (filter : Filter) (property : String) : Parameter → Except Error Effect
  | .map _ => .ok .nothing
  | value =>
    match filter.kind with
    | .boolean => .ok (.ofTruth value)
    | .numeric => .ok (.test (.equals (.ofParameter id value)))
    | .search => (filter.searchStrategy property).map (.ofSearch · value)
    | .order => .ok (.ofOrder (filter.properties.strategy? property) value)

end Filter

end AttributeFilter
