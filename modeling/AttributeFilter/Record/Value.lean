import AttributeFilter.Calendar.Instant
import AttributeFilter.Json
import AttributeFilter.Number.Reading
import AttributeFilter.Uuid

/-!
# Stored values

The values that records hold for their attributes. A value is compared with the text of a request
by reading the text as a value of the same kind; it is matched against patterns through a text of
its own.

## Main definitions

* `Value`: a stored value.
* `Value.matchesText`: whether a request text stands for the value.
* `Value.equalsBool`: whether a condition on truth holds of the value.
* `Value.subject?`: the text that patterns are matched against.
* `Value.compare?`: the order of values of one kind, numbers of both kinds being one.

## Main results

* `Value.matchesText_text_iff`: which texts a request text stands for.
* `Value.eq_references_of_subject?`: only a list of references has no text.
-/

namespace AttributeFilter

inductive Value
  | integer (value : Int64)
  | boolean (value : Bool)
  | decimal (value : Binary64)
  | text (value : String)
  | date (value : Date)
  | instant (value : Instant)
  | reference (id : Uuid)
  | references (ids : List Uuid)
  deriving DecidableEq, Repr

namespace Value

/-- The identifiers of the records that a value points at. -/
def targets : Value → List Uuid
  | reference id => [id]
  | references ids => ids
  | _ => []

def bool? : Value → Option Bool
  | boolean value => some value
  | _ => none

def text? : Value → Option String
  | text value => some value
  | _ => none

/-! ### Conditions -/

/-- Whether a condition on truth holds. Whole numbers are true if they are not zero; no other value
has a truth value. -/
def equalsBool (expected : Bool) : Value → Bool
  | boolean value => value == expected
  | integer value => (value != 0) == expected
  | _ => false

/-- Whether a text stands for a whole number: as a whole number itself, or else as a decimal equal
to the double nearest to it. -/
def integerMatches (value : Int64) (raw : List Char) : Bool :=
  match Int64.ofText? raw with
  | some number => number == value
  | none =>
    match Binary64.ofText? raw with
    | some number => number.equals (.ofInt value.toInt)
    | none => false

/-- Whether a text stands for a truth value. The empty text stands for falsehood. -/
def booleanMatches (value : Bool) (raw : List Char) : Bool :=
  if raw = "1".toList ∨ raw = "true".toList then value
  else if raw = [] ∨ raw = "0".toList ∨ raw = "false".toList then !value
  else false

/-- Whether a text without blanks around it, read as a value of the same kind, is the value. -/
def matchesTrimmed (raw : List Char) : Value → Bool
  | integer value => integerMatches value raw
  | decimal value => (Binary64.ofText? raw).any (·.equals value)
  | boolean value => booleanMatches value raw
  | text value => value.toList == raw
  | date value => Date.ofTextOrInstant? raw == some value
  | instant value => Instant.ofText? raw == some value
  | reference id => Uuid.ofText? raw == some id
  | references ids => (Uuid.ofText? raw).any (ids.contains ·)

/-- Whether a request text stands for the value. Blanks around the text do not count. -/
def matchesText (raw : String) (value : Value) : Bool :=
  value.matchesTrimmed (Text.trim Text.isBlank raw.toList)

/-- A request text stands for the text that it is without blanks around it. -/
theorem matchesText_text_iff {raw held : String} :
    (text held).matchesText raw = true ↔
      held = String.ofList (Text.trim Text.isBlank raw.toList) := by
  rw [matchesText, matchesTrimmed, beq_iff_eq, ← String.toList_inj, String.toList_ofList]

/-! ### Texts -/

def clockMark : List Char := "+00:00".toList

/-- The text that patterns are matched against. A list of references has none. -/
def subject? : Value → Option String
  | text value => some value
  | integer value => some (toString value.toInt)
  | decimal value => some (String.ofList value.plainText)
  | boolean value => some (if value then "1" else "0")
  | date value => some (String.ofList value.text)
  | instant value => some (String.ofList (value.text clockMark))
  | reference id => some (String.ofList id.text)
  | references _ => none

def toJson : Value → Json
  | integer value => .integer value.toInt
  | boolean value => .boolean value
  | decimal value => .decimal value
  | text value => .string value
  | date value => .string (String.ofList value.text)
  | instant value => .string (String.ofList (value.text ['Z']))
  | reference id => .string (String.ofList id.text)
  | references ids => .array (ids.map fun id => .string (String.ofList id.text))

theorem eq_references_of_subject? {value : Value} (h : value.subject? = none) :
    ∃ ids, value = references ids := by
  cases value <;> simp [subject?] at h ⊢

/-! ### Order -/

/-- How two values lie to each other; `none` for values of different kinds, for lists of
references and for not-a-number. -/
def compare? : Value → Value → Option Ordering
  | integer a, integer b => some (compare a.toInt b.toInt)
  | decimal a, decimal b => a.compare? b
  | integer a, decimal b => (Binary64.ofInt a.toInt).compare? b
  | decimal a, integer b => a.compare? (.ofInt b.toInt)
  | boolean a, boolean b => some (compare a b)
  | text a, text b => some (compare a b)
  | date a, date b => some (a.compare b)
  | instant a, instant b => some (a.compare b)
  | reference a, reference b => some (a.compare b)
  | _, _ => none

end Value

end AttributeFilter
