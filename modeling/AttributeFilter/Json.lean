import AttributeFilter.Keyed
import AttributeFilter.Number.Shortest

/-!
# Structured values and their compact text

Attribute options are free-form structured values, and parameters and filter values are shown in
the same notation. Members of an object keep their order.

## Main definitions

* `Json`: a structured value; whole numbers are told apart from numbers with a point.
* `Json.member?`, `Json.text?`, `Json.natural?`: reading.
* `Json.quote`: a text in quotes, with the quote, the backslash and control characters escaped.
* `Json.render`: the compact text of a value.
-/

namespace AttributeFilter

inductive Json
  | null
  | boolean (value : Bool)
  | integer (value : Int)
  | decimal (value : Binary64)
  | string (value : String)
  | array (items : List Json)
  | object (members : List (String × Json))
  deriving Repr, Inhabited

namespace Json

def member? (name : String) : Json → Option Json
  | object members => Keyed.get? name members
  | _ => none

def text? : Json → Option String
  | string value => some value
  | _ => none

/-- The value of a whole number that is not negative and has at most 64 bits. -/
def natural? : Json → Option Nat
  | integer value =>
    if 0 ≤ value ∧ value < Numeral.power 2 64 then some value.toNat else none
  | _ => none

/-! ### Compact text -/

def escapeChar (c : Char) : List Char :=
  if c = '"' then ['\\', '"']
  else if c = '\\' then ['\\', '\\']
  else if c = '\x08' then ['\\', 'b']
  else if c = '\x0c' then ['\\', 'f']
  else if c = '\n' then ['\\', 'n']
  else if c = '\r' then ['\\', 'r']
  else if c = '\t' then ['\\', 't']
  else if c.toNat < 32 then '\\' :: 'u' :: Numeral.fixed 16 4 c.toNat
  else [c]

def quote (text : String) : String :=
  String.ofList ('"' :: text.toList.flatMap escapeChar ++ ['"'])

mutual

/-- The compact text of a value. A double that is not finite has none, and is written as null. -/
def render : Json → String
  | null => "null"
  | boolean value => if value then "true" else "false"
  | integer value => toString value
  | decimal value =>
    match value.scientificText? with
    | some text => String.ofList text
    | none => "null"
  | string value => quote value
  | array items => "[" ++ renderItems items ++ "]"
  | object members => "\x7b" ++ renderMembers members ++ "\x7d"

def renderItems : List Json → String
  | [] => ""
  | [item] => render item
  | item :: rest => render item ++ "," ++ renderItems rest

def renderMembers : List (String × Json) → String
  | [] => ""
  | [(name, value)] => quote name ++ ":" ++ render value
  | (name, value) :: rest => quote name ++ ":" ++ render value ++ "," ++ renderMembers rest

end

end Json

end AttributeFilter
