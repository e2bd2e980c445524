import AttributeFilter.Json
import AttributeFilter.Keyed

/-!
# Values of a settings file

Settings and schemas are written in TOML. A document is a table of values; tables keep their
entries in the order in which they were opened.

## Main definitions

* `Toml`: a value.
* `Toml.isReadable`: whether every number in a value can be read.
* `Toml.entries?`: the named entries of a value, where named entries are expected.
* `Toml.toJson?`: the value as a structured value, if its numbers are small enough.
-/

namespace AttributeFilter

/-- A value of a settings file. A `moment` is a date, a time or both. An `unreadable` number is too
large to be held, or malformed in a way that only reading it shows; it may stand where nobody reads
it. -/
inductive Toml
  | string (text : String)
  | integer (value : Int)
  | decimal (value : Binary64)
  | unreadable
  | boolean (value : Bool)
  | moment (text : String)
  | array (items : List Toml)
  | table (entries : List (String × Toml))
  deriving Repr, Inhabited

namespace Toml

/-- The name under which a moment gives its text where named entries are expected. -/
def momentKey : String := "$__toml_private_datetime"

def text? : Toml → Option String
  | string text => some text
  | _ => none

def bool? : Toml → Option Bool
  | boolean value => some value
  | _ => none

def items? : Toml → Option (List Toml)
  | array items => some items
  | _ => none

/-- The named entries of a value, where named entries are expected. -/
def entries? : Toml → Option (List (String × Toml))
  | table entries => some entries
  | moment text => some [(momentKey, string text)]
  | _ => none

mutual

def isReadable : Toml → Bool
  | unreadable => false
  | array items => areReadable items
  | table entries => entriesAreReadable entries
  | _ => true

def areReadable : List Toml → Bool
  | [] => true
  | item :: rest => item.isReadable && areReadable rest

def entriesAreReadable : List (String × Toml) → Bool
  | [] => true
  | (_, value) :: rest => value.isReadable && entriesAreReadable rest

end

mutual

/-- The value as a structured value. Whole numbers must fit into 64 bits, signed or not. -/
def toJson? : Toml → Option Json
  | string text => some (.string text)
  | integer value =>
    if -(Numeral.power 2 63 : Int) ≤ value ∧ value < Numeral.power 2 64 then
      some (.integer value)
    else none
  | decimal value => some (.decimal value)
  | unreadable => none
  | boolean value => some (.boolean value)
  | moment text => some (.object [(momentKey, .string text)])
  | array items => (toJsonItems? items).map Json.array
  | table entries => (toJsonEntries? entries).map Json.object

def toJsonItems? : List Toml → Option (List Json)
  | [] => some []
  | item :: rest => do return (← toJson? item) :: (← toJsonItems? rest)

def toJsonEntries? : List (String × Toml) → Option (List (String × Json))
  | [] => some []
  | (name, value) :: rest => do return (name, ← toJson? value) :: (← toJsonEntries? rest)

end

end Toml

end AttributeFilter
