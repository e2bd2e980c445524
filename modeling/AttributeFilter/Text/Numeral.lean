/-!
# Numerals

Reading and writing of unsigned numbers in base ten and sixteen, on lists of characters.

## Main definitions

* `Numeral.digit?`, `Numeral.hexDigit?`: the value of one digit.
* `Numeral.ofDigits`: the number that a list of digit values stands for.
* `Numeral.fixed`: a number in exactly so many digits, leading zeros included.
* `Numeral.power`: the value of a digit's place.
* `Numeral.natural`, `Numeral.padded`: a number in as few digits as it needs, or at least so many.
-/

namespace AttributeFilter.Numeral

/-- The value of the place that has so many places below it. -/
def power (base places : Nat) : Nat :=
  Nat.pow base places

def digit? (c : Char) : Option Nat :=
  if '0' ≤ c ∧ c ≤ '9' then some (c.toNat - '0'.toNat) else none

/-- The value of a hexadecimal digit, in either case. -/
def hexDigit? (c : Char) : Option Nat :=
  if '0' ≤ c ∧ c ≤ '9' then some (c.toNat - '0'.toNat)
  else if 'a' ≤ c ∧ c ≤ 'f' then some (c.toNat - 'a'.toNat + 10)
  else if 'A' ≤ c ∧ c ≤ 'F' then some (c.toNat - 'A'.toNat + 10)
  else none

def isDigit (c : Char) : Bool :=
  (digit? c).isSome

/-- The number whose digits, the highest first, have the given values. -/
def ofDigits (base : Nat) (digits : List Nat) : Nat :=
  digits.foldl (fun number digit => number * base + digit) 0

/-- The number that decimal digits stand for; other characters count as nothing. -/
def ofDecimal (text : List Char) : Nat :=
  ofDigits 10 (text.filterMap digit?)

/-- The number of a non-empty text of decimal digits alone. -/
def decimal? (text : List Char) : Option Nat :=
  if text.isEmpty || !text.all isDigit then none else some (ofDecimal text)

/-- The number of a text of hexadecimal digits alone. -/
def hexadecimal? (text : List Char) : Option Nat :=
  (text.mapM hexDigit?).map (ofDigits 16)

/-- The last digits of a number, exactly `width` of them. -/
def fixed (base : Nat) : Nat → Nat → List Char
  | 0, _ => []
  | width + 1, number => fixed base width (number / base) ++ [Nat.digitChar (number % base)]

/-- A number in decimal, without leading zeros. -/
def natural (number : Nat) : List Char :=
  Nat.toDigits 10 number

/-- A number in decimal, with leading zeros up to `width` digits. -/
def padded (width number : Nat) : List Char :=
  let digits := natural number
  List.replicate (width - digits.length) '0' ++ digits

theorem length_fixed (base : Nat) : (width number : Nat) → (fixed base width number).length = width
  | 0, _ => rfl
  | width + 1, number => by simp [fixed, length_fixed base width]

end AttributeFilter.Numeral
