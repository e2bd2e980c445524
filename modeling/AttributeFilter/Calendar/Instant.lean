import AttributeFilter.Calendar.Date

/-!
# Instants

Points in time of the universal clock: a date, a second of the day and nanoseconds. In a leap
second the nanoseconds run on beyond the second. A clock shows leap seconds only at the end of a
minute, as second 60, but an instant may have one anywhere.

## Main definitions

* `Instant`: a point in time; `Instant.ofParts?` makes one from clock readings.
* `Instant.text`: date and time of day with a `T` between them, a fraction of three, six or nine
  digits if there is one, and the given mark for the universal clock.
* `Instant.ofStamp?`: reading a time stamp with an offset from the universal clock.
* `Instant.ofClock?`: reading a date and a time of day of the universal clock.
* `Instant.ofText?`: either of the two.

## Main results

* `Instant.shift?_zero`: no offset leaves the instant as it is.
-/

namespace AttributeFilter

def secondsPerDay : Nat := 86400

/-- Whether a second of the day and nanoseconds are a time of day: from `10 ^ 9` nanoseconds on it
is the leap second behind that second. -/
def IsTimeOfDay (second nanosecond : Nat) : Prop :=
  second < secondsPerDay ∧ nanosecond < 2000000000

instance (second nanosecond : Nat) : Decidable (IsTimeOfDay second nanosecond) :=
  inferInstanceAs (Decidable (_ ∧ _))

structure Instant where
  date : Date
  second : Nat
  nanosecond : Nat
  isTimeOfDay : IsTimeOfDay second nanosecond
  deriving DecidableEq, Repr

namespace Instant

def onDate? (date : Date) (second nanosecond : Nat) : Option Instant :=
  if h : IsTimeOfDay second nanosecond then some ⟨date, second, nanosecond, h⟩ else none

/-- The instant with these clock readings. In a leap second there are `10 ^ 9` nanoseconds or
more. -/
def ofParts? (date : Date) (hour minute second nanosecond : Nat) : Option Instant :=
  if hour < 24 ∧ minute < 60 ∧ second < 60 then
    onDate? date (hour * 3600 + minute * 60 + second) nanosecond
  else none

/-- The instant with these clock readings, where a leap second is second 60. -/
def ofReading? (date : Date) (hour minute second nanosecond : Nat) : Option Instant :=
  if second = 60 then ofParts? date hour minute 59 (nanosecond + 1000000000)
  else ofParts? date hour minute second nanosecond

def compare (a b : Instant) : Ordering :=
  (a.date.compare b.date).then
    ((Ord.compare a.second b.second).then (Ord.compare a.nanosecond b.nanosecond))

/-- The universal time of a clock that is the given number of minutes ahead of it. -/
def shift? (instant : Instant) (minutesAhead : Int) : Option Instant :=
  let total : Int := (instant.second : Int) - minutesAhead * 60
  let second := (total % (secondsPerDay : Int)).toNat
  let date? :=
    if total < 0 then instant.date.previous?
    else if (secondsPerDay : Int) ≤ total then instant.date.next?
    else some instant.date
  date?.bind fun date => onDate? date second instant.nanosecond

theorem shift?_zero (instant : Instant) : instant.shift? 0 = some instant := by
  obtain ⟨date, second, nanosecond, h⟩ := instant
  have hs : second < secondsPerDay := h.1
  have hneg : ¬ ((second : Int) < 0) := by omega
  have hlt : ¬ ((secondsPerDay : Int) ≤ (second : Int)) := by omega
  have hmod : ((second : Int) % (secondsPerDay : Int)).toNat = second := by
    rw [Int.emod_eq_of_lt (by omega) (by omega)]
    rfl
  simp [shift?, hneg, hlt, hmod, onDate?, h]

/-! ### Text -/

/-- The fraction of a second in three, six or nine digits; none for a whole second. -/
def fractionText (nanosecond : Nat) : List Char :=
  if nanosecond = 0 then []
  else if nanosecond % 1000000 = 0 then '.' :: Numeral.fixed 10 3 (nanosecond / 1000000)
  else if nanosecond % 1000 = 0 then '.' :: Numeral.fixed 10 6 (nanosecond / 1000)
  else '.' :: Numeral.fixed 10 9 nanosecond

/-- The text of an instant, ending in a mark for the universal clock. A leap second is written as
the next number, so second 60 at the end of a minute. -/
def text (zone : List Char) (instant : Instant) : List Char :=
  let leap := 1000000000 ≤ instant.nanosecond
  let second := instant.second % 60 + if leap then 1 else 0
  let nanosecond := if leap then instant.nanosecond - 1000000000 else instant.nanosecond
  instant.date.text ++ 'T' :: Numeral.fixed 10 2 (instant.second / 3600) ++
    ':' :: Numeral.fixed 10 2 (instant.second / 60 % 60) ++
    ':' :: Numeral.fixed 10 2 second ++ fractionText nanosecond ++ zone

/-! ### Reading -/

/-- Reads exactly so many digits. -/
def scanFixed? (width : Nat) (text : List Char) : Option (Nat × List Char) :=
  let digits := text.take width
  if digits.length = width ∧ digits.all Numeral.isDigit then
    some (Numeral.ofDecimal digits, text.drop width)
  else none

/-- Reads an optional fraction of a second; digits after the ninth are passed over. -/
def scanFraction? : List Char → Option (Nat × List Char)
  | '.' :: rest =>
    let digits := rest.takeWhile Numeral.isDigit
    if digits.isEmpty then none
    else
      let used := digits.take 9
      some (Numeral.ofDecimal used * Numeral.power 10 (9 - used.length), rest.drop digits.length)
  | rest => some (0, rest)

/-- Reads the offset of a clock in minutes: `Z` in either case, or a sign, hours and minutes, less
than a day. -/
def scanOffset? : List Char → Option (Int × List Char)
  | [] => none
  | mark :: rest =>
    if mark = 'Z' ∨ mark = 'z' then some (0, rest)
    else if mark = '+' ∨ mark = '-' ∨ mark = '\u2212' then do
      let (hours, rest) ← scanFixed? 2 rest
      let (minutes, rest) ← scanFixed? 2 (← Date.scanChar? ':' rest)
      if hours < 24 ∧ minutes < 60 then
        let offset : Int := (hours * 60 + minutes : Nat)
        some (if mark = '+' then offset else -offset, rest)
      else none
    else none

/-- Reads a time stamp: a date and a time of day in fixed digits, with `T` in either case or a
blank between them, and an offset. -/
def ofStamp? (text : List Char) : Option Instant := do
  let (year, rest) ← scanFixed? 4 text
  let (month, rest) ← scanFixed? 2 (← Date.scanChar? '-' rest)
  let (day, rest) ← scanFixed? 2 (← Date.scanChar? '-' rest)
  let rest ← match rest with
    | separator :: rest =>
      if separator = 'T' ∨ separator = 't' ∨ separator = ' ' then some rest else none
    | [] => none
  let (hour, rest) ← scanFixed? 2 rest
  let (minute, rest) ← scanFixed? 2 (← Date.scanChar? ':' rest)
  let (second, rest) ← scanFixed? 2 (← Date.scanChar? ':' rest)
  let (nanosecond, rest) ← scanFraction? rest
  let (offset, rest) ← scanOffset? rest
  if rest.isEmpty then
    let date ← Date.ofParts? year month day
    let reading ← ofReading? date hour minute second nanosecond
    reading.shift? offset
  else none

/-- Reads a date and a time of day of the universal clock, blanks allowed before each number. -/
def ofClock? (text : List Char) : Option Instant := do
  let (date, rest) ← Date.scan? text
  let (hour, rest) ← Date.scanNumber? 2 rest
  let (minute, rest) ← Date.scanNumber? 2 (← Date.scanChar? ':' rest)
  let (second, rest) ← Date.scanNumber? 2 (← Date.scanChar? ':' rest)
  if rest.isEmpty then ofReading? date hour minute second 0 else none

/-- Reads an instant: a time stamp with an offset, or else a reading of the universal clock. -/
def ofText? (text : List Char) : Option Instant :=
  (ofStamp? text).or (ofClock? text)

end Instant

/-- Reads a date, or else takes the date of an instant. -/
def Date.ofTextOrInstant? (text : List Char) : Option Date :=
  (Date.ofText? text).or ((Instant.ofText? text).map Instant.date)

end AttributeFilter
