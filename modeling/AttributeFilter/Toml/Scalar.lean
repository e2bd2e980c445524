import AttributeFilter.Calendar.Instant
import AttributeFilter.Number.Reading
import AttributeFilter.Toml.Basic
import AttributeFilter.Toml.Scan

/-!
# Plain values of a settings file

Values that are written without quotes or brackets: truth values, whole numbers in four bases,
decimals, dates and times. Digits may be grouped by underscores, each with a digit on either side.
A number that is too large to be held, or whose digits turn out to be none, is still a value, but an
unreadable one.

## Main definitions

* `Toml.integer?`, `Toml.decimal?`: numbers, readable or not.
* `Toml.moment?`: dates and times; the text is written anew in one form.
* `Toml.plain?`: a plain value of any kind.
* `Toml.plainExtent`: the text that a plain value may take up.
-/

namespace AttributeFilter.Toml

/-! ### Numbers -/

/-- Digits without the underscores that group them. -/
def ungrouped? (isDigit : Char → Bool) (text : List Char) : Option (List Char) :=
  let groups := text.splitOn '_'
  if groups.all fun group => !group.isEmpty && group.all isDigit then some groups.flatten
  else none

/-- Decimal digits without a needless zero in front. -/
def wholeDigits? (text : List Char) : Option (List Char) :=
  (ungrouped? Numeral.isDigit text).filter fun digits =>
    digits.length = 1 || digits.head? ≠ some '0'

/-- A whole number, readable if 128 bits hold it, signed or not. -/
def ofWhole (value : Int) : Toml :=
  if -(Numeral.power 2 127 : Int) ≤ value ∧ value < Numeral.power 2 128 then .integer value
  else .unreadable

/-- A whole number in a base up to sixteen. One without digits is unreadable. -/
def based? (base : Nat) (text : List Char) : Option Toml :=
  let isDigit (c : Char) : Bool := (Numeral.hexDigit? c).any (· < base)
  if text.isEmpty then some .unreadable
  else
    (ungrouped? isDigit text).map fun digits =>
      ofWhole (Numeral.ofDigits base (digits.filterMap Numeral.hexDigit?) : Nat)

/-- Whether groups of characters could be digits: next to each underscore between them there are
digits of some base. -/
def couldBeDigits (groups : List (List Char)) : Bool :=
  let isDigit (c : Char) : Bool := (Numeral.hexDigit? c).isSome
  groups.all (·.head?.any isDigit) && groups.dropLast.all (·.getLast?.any isDigit)

/-- A whole number in decimal. What follows its first underscore is unreadable if there is anything
but digits in it. -/
def whole? (text : List Char) : Option Toml :=
  let (negative, magnitude) := splitSign text
  let groups := magnitude.splitOn '_'
  let first := groups.headD []
  let isWhole := !magnitude.any fun c => c = '.' || c = 'e' || c = 'E' || c = ' '
  let isUnpadded := magnitude = ['0'] || first.head? ≠ some '0'
  if isWhole && first.all Numeral.isDigit && isUnpadded && couldBeDigits groups then
    if groups.all (·.all Numeral.isDigit) then
      some (ofWhole (withSign negative (Numeral.ofDecimal magnitude)))
    else some .unreadable
  else none

/-- A whole number: after `0x`, `0o` or `0b` in another base, else in decimal with an optional
sign. -/
def integer? : List Char → Option Toml
  | '0' :: 'x' :: digits => based? 16 digits
  | '0' :: 'o' :: digits => based? 8 digits
  | '0' :: 'b' :: digits => based? 2 digits
  | text => whole? text

/-- Whether the text is a decimal: whole digits, then a fraction, an exponent or both. -/
def isDecimal (text : List Char) : Bool :=
  let isMark (c : Char) : Bool := c = 'e' || c = 'E'
  let magnitude := (splitSign text).2
  let mantissa := magnitude.takeWhile (!isMark ·)
  let exponent := magnitude.dropWhile (!isMark ·)
  let whole := mantissa.takeWhile (· ≠ '.')
  let fraction := mantissa.dropWhile (· ≠ '.')
  (wholeDigits? whole).isSome &&
    (fraction.isEmpty || (ungrouped? Numeral.isDigit (fraction.drop 1)).isSome) &&
    (exponent.isEmpty || (ungrouped? Numeral.isDigit (splitSign (exponent.drop 1)).2).isSome) &&
    (!fraction.isEmpty || !exponent.isEmpty)

def special? (text : List Char) : Option Binary64 :=
  let (negative, name) := splitSign text
  if name = "inf".toList then some (.infinite negative)
  else if name = "nan".toList then some .nan
  else none

/-- A decimal, or one of the special numbers. Digits that amount to an infinity are unreadable. -/
def decimal? (text : List Char) : Option Toml :=
  if isDecimal text then
    (Binary64.ofText? (text.filter (· ≠ '_'))).map fun value =>
      match value with
      | .infinite _ => .unreadable
      | value => .decimal value
  else (special? text).map Toml.decimal

/-! ### Dates and times -/

def scanDate? (text : List Char) : Option (Date × List Char) := do
  let (year, rest) ← Instant.scanFixed? 4 text
  let (month, rest) ← Instant.scanFixed? 2 (← expect '-' rest)
  let (day, rest) ← Instant.scanFixed? 2 (← expect '-' rest)
  let date ← Date.ofParts? year month day
  return (date, rest)

/-- A fraction of a second without zeros at its end. -/
def trimmedFraction (nanosecond : Nat) : List Char :=
  if nanosecond = 0 then []
  else '.' :: Text.trimEnd (· = '0') (Numeral.fixed 10 9 nanosecond)

/-- Reads the seconds of a time and writes them anew. Seconds that are left out are zero. -/
def scanSeconds? : List Char → Option (List Char × List Char)
  | ':' :: rest => do
    let (second, rest) ← Instant.scanFixed? 2 rest
    let (nanosecond, rest) ← Instant.scanFraction? rest
    if second ≤ 60 then
      return (':' :: Numeral.fixed 10 2 second ++ trimmedFraction nanosecond, rest)
    else none
  | rest => some (":00".toList, rest)

/-- Reads a time of day and writes it anew. -/
def scanTime? (text : List Char) : Option (List Char × List Char) := do
  let (hour, rest) ← Instant.scanFixed? 2 text
  let (minute, rest) ← Instant.scanFixed? 2 (← expect ':' rest)
  let (seconds, rest) ← scanSeconds? rest
  if hour < 24 ∧ minute < 60 then
    return (Numeral.fixed 10 2 hour ++ ':' :: Numeral.fixed 10 2 minute ++ seconds, rest)
  else none

/-- Reads the offset of a clock and writes it anew; no distance has a plus sign. The offset may be
left out. -/
def offsetText? : List Char → Option (List Char)
  | [] => some []
  | mark :: rest =>
    if mark = 'Z' ∨ mark = 'z' then (if rest.isEmpty then some ['Z'] else none)
    else if mark = '+' ∨ mark = '-' then do
      let (hours, rest) ← Instant.scanFixed? 2 rest
      let (minutes, rest) ← Instant.scanFixed? 2 (← expect ':' rest)
      if hours < 24 ∧ minutes < 60 ∧ rest.isEmpty then
        let sign := if hours = 0 ∧ minutes = 0 then '+' else mark
        return sign :: Numeral.fixed 10 2 hours ++ ':' :: Numeral.fixed 10 2 minutes
      else none
    else none

/-- A date, a time, or a date with a time and possibly an offset. -/
def moment? (text : List Char) : Option String :=
  match scanDate? text with
  | some (date, []) => some (String.ofList date.text)
  | some (date, separator :: rest) =>
    if separator = 'T' ∨ separator = 't' ∨ separator = ' ' then do
      let (time, rest) ← scanTime? rest
      let offset ← offsetText? rest
      return String.ofList (date.text ++ 'T' :: time ++ offset)
    else none
  | none =>
    match scanTime? text with
    | some (time, []) => some (String.ofList time)
    | _ => none

/-! ### Plain values -/

def plain? (text : List Char) : Option Toml :=
  if text = "true".toList then some (.boolean true)
  else if text = "false".toList then some (.boolean false)
  else
    ((integer? text).or (decimal? text)).or ((moment? text).map Toml.moment)

/-- Whether a character may belong to a plain value: any but those that end one. -/
def isPlainChar (c : Char) : Bool :=
  !(c = ' ' || c = '\t' || c = '\r' || c = '\n' || c = '#' || c = ',' || c = '=' || c = '[' ||
    c = ']' || c = '\x7b' || c = '\x7d')

/-- The text that a plain value may take up, and what follows it. A blank between a date and
digits belongs to the value. -/
def plainExtent (text : List Char) : List Char × List Char :=
  let first := text.takeWhile isPlainChar
  match text.dropWhile isPlainChar with
  | ' ' :: d :: rest =>
    if Numeral.isDigit d && (scanDate? first).any (·.2.isEmpty) then
      let more := d :: rest
      (first ++ ' ' :: more.takeWhile isPlainChar, more.dropWhile isPlainChar)
    else (first, ' ' :: d :: rest)
  | rest => (first, rest)

def plain (text : List Char) : Option (Toml × List Char) :=
  let (extent, rest) := plainExtent text
  (plain? extent).map fun value => (value, rest)

end AttributeFilter.Toml
