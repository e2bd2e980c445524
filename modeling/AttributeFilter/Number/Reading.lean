import AttributeFilter.Number.Binary64
import AttributeFilter.Text.Cut
import AttributeFilter.Text.Numeral

/-!
# Reading numbers

Request texts are compared with stored numbers by reading them as numbers. A whole number is an
optional sign and digits; a decimal may have a point, with digits on at least one side of it, and
an exponent; the names of the infinities and of not-a-number are read in any case. Neither admits
blanks, separators or any other character.

## Main definitions

* `Int64.ofText?`: a whole number between `-2 ^ 63` and `2 ^ 63 - 1`.
* `Binary64.ofText?`: a decimal, rounded to the nearest double.
-/

namespace AttributeFilter

/-- Takes the sign off a number; a number without sign is positive. -/
def splitSign : List Char → Bool × List Char
  | '-' :: rest => (true, rest)
  | '+' :: rest => (false, rest)
  | text => (false, text)

def withSign (negative : Bool) (magnitude : Nat) : Int :=
  if negative then -magnitude else magnitude

/-- Reads a whole number of 64 bits: an optional sign and decimal digits. -/
def Int64.ofText? (text : List Char) : Option Int64 :=
  let (negative, digits) := splitSign text
  (Numeral.decimal? digits).bind fun magnitude =>
    let number := withSign negative magnitude
    if Int64.minValue.toInt ≤ number ∧ number ≤ Int64.maxValue.toInt then some (Int64.ofInt number)
    else none

namespace Binary64

/-- The exponent of a decimal: nothing, or a mark, an optional sign and digits. -/
def exponentOfText? : List Char → Option Int
  | [] => some 0
  | mark :: rest =>
    if mark = 'e' ∨ mark = 'E' then
      let (negative, digits) := splitSign rest
      (Numeral.decimal? digits).map (withSign negative)
    else none

/-- Reads an unsigned decimal: digits around an optional point, then an optional exponent. -/
def magnitudeOfText? (negative : Bool) (text : List Char) : Option Binary64 :=
  let whole := text.takeWhile Numeral.isDigit
  let afterWhole := text.dropWhile Numeral.isDigit
  let (fraction, afterFraction) :=
    match afterWhole with
    | '.' :: rest => (rest.takeWhile Numeral.isDigit, rest.dropWhile Numeral.isDigit)
    | rest => ([], rest)
  if whole.isEmpty && fraction.isEmpty then none
  else
    (exponentOfText? afterFraction).map fun exponent =>
      ofDecimal negative (Numeral.ofDecimal (whole ++ fraction)) (exponent - fraction.length)

/-- Reads a decimal number, an infinity or not-a-number. -/
def ofText? (text : List Char) : Option Binary64 :=
  let (negative, rest) := splitSign text
  let name := String.ofList (rest.map Char.toLower)
  if name = "inf" ∨ name = "infinity" then some (.infinite negative)
  else if name = "nan" then some .nan
  else magnitudeOfText? negative rest

end Binary64

end AttributeFilter
