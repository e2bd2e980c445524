import AttributeFilter.Text.Blank
import AttributeFilter.Text.Numeral

/-!
# Calendar dates

Dates of the proleptic Gregorian calendar, with signed years and a year zero.

## Main definitions

* `Date`: a day of the calendar; `Date.ofParts?` makes one if it exists.
* `Date.next?`, `Date.previous?`: the neighbouring days.
* `Date.text`: year, month and day; four digits of a year, and a sign for years that need one.
* `Date.scan?`, `Date.ofText?`: reading a date, at the front of a text or as all of it.
-/

namespace AttributeFilter

namespace Calendar

/-- A year is a leap year if four divides it, centuries only if four hundred does. -/
def isLeapYear (year : Int) : Bool :=
  year % 4 = 0 && (year % 100 ≠ 0 || year % 400 = 0)

def monthLength (year : Int) (month : Nat) : Nat :=
  if month = 2 then (if isLeapYear year then 29 else 28)
  else if month = 4 ∨ month = 6 ∨ month = 9 ∨ month = 11 then 30
  else 31

def minYear : Int := -262143

def maxYear : Int := 262142

def Exists (year : Int) (month day : Nat) : Prop :=
  minYear ≤ year ∧ year ≤ maxYear ∧ 1 ≤ month ∧ month ≤ 12 ∧ 1 ≤ day ∧
    day ≤ monthLength year month

instance (year : Int) (month day : Nat) : Decidable (Exists year month day) :=
  inferInstanceAs (Decidable (_ ∧ _ ∧ _ ∧ _ ∧ _ ∧ _))

end Calendar

structure Date where
  year : Int
  month : Nat
  day : Nat
  exists_day : Calendar.Exists year month day
  deriving DecidableEq, Repr

namespace Date

open Calendar

def ofParts? (year : Int) (month day : Nat) : Option Date :=
  if h : Exists year month day then some ⟨year, month, day, h⟩ else none

def next? (date : Date) : Option Date :=
  if date.day < monthLength date.year date.month then
    ofParts? date.year date.month (date.day + 1)
  else if date.month < 12 then ofParts? date.year (date.month + 1) 1
  else ofParts? (date.year + 1) 1 1

def previous? (date : Date) : Option Date :=
  if 1 < date.day then ofParts? date.year date.month (date.day - 1)
  else if 1 < date.month then
    ofParts? date.year (date.month - 1) (monthLength date.year (date.month - 1))
  else ofParts? (date.year - 1) 12 31

def compare (a b : Date) : Ordering :=
  (Ord.compare a.year b.year).then ((Ord.compare a.month b.month).then (Ord.compare a.day b.day))

/-! ### Text -/

/-- A year in four digits; years before zero and after 9999 have a sign. -/
def yearText (year : Int) : List Char :=
  if 0 ≤ year ∧ year ≤ 9999 then Numeral.fixed 10 4 year.natAbs
  else (if year < 0 then '-' else '+') :: Numeral.padded 4 year.natAbs

def text (date : Date) : List Char :=
  yearText date.year ++ '-' :: Numeral.fixed 10 2 date.month ++ '-' :: Numeral.fixed 10 2 date.day

/-! ### Reading -/

/-- Reads the digits at the front of a text, at most `width` of them and at least one. -/
def scanDigits? (width : Nat) (text : List Char) : Option (Nat × List Char) :=
  let digits := (text.take width).takeWhile Numeral.isDigit
  if digits.isEmpty then none else some (Numeral.ofDecimal digits, text.drop digits.length)

/-- Reads a number after any blanks. -/
def scanNumber? (width : Nat) (text : List Char) : Option (Nat × List Char) :=
  scanDigits? width (Text.trimStart Text.isBlank text)

/-- Reads a year after any blanks: at most four digits, or a sign and any digits. -/
def scanYear? (text : List Char) : Option (Int × List Char) :=
  match Text.trimStart Text.isBlank text with
  | '-' :: rest => (scanDigits? rest.length rest).map fun (year, rest) => (-(year : Int), rest)
  | '+' :: rest => (scanDigits? rest.length rest).map fun (year, rest) => ((year : Int), rest)
  | rest => (scanDigits? 4 rest).map fun (year, rest) => ((year : Int), rest)

def scanChar? (expected : Char) : List Char → Option (List Char)
  | [] => none
  | c :: rest => if c = expected then some rest else none

/-- Reads a date at the front of a text: year, month and day with hyphens between them. -/
def scan? (text : List Char) : Option (Date × List Char) := do
  let (year, rest) ← scanYear? text
  let (month, rest) ← scanNumber? 2 (← scanChar? '-' rest)
  let (day, rest) ← scanNumber? 2 (← scanChar? '-' rest)
  let date ← ofParts? year month day
  return (date, rest)

/-- Reads a text that is a date and nothing else. -/
def ofText? (text : List Char) : Option Date :=
  match scan? text with
  | some (date, []) => some date
  | _ => none

end Date

end AttributeFilter
