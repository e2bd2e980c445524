import AttributeFilter.Number.Binary64
import AttributeFilter.Text.Numeral

/-!
# Writing doubles with the fewest digits

A double is written with the fewest decimal digits that read back as the same double, and among
those with the ones nearest to it. The digits are found in exact arithmetic: a decimal grid has a
point that reads back exactly if one of the two grid points around the double does.

## Main definitions

* `Shortest.Tie`: which of two equally near decimals is taken.
* `Shortest.Decimal`, `Shortest.digitsOf`: the digits of a double, and their exponent of ten.
* `Binary64.plainText`: positional, without exponent.
* `Binary64.scientificText`: positional for moderate magnitudes, else with an exponent.
-/

namespace AttributeFilter.Shortest

/-- Which of two equally near decimals is taken. -/
inductive Tie
  | up
  | even
  deriving DecidableEq, Repr

/-- The decimal number `digits · 10 ^ exponent`. -/
structure Decimal where
  digits : Nat
  exponent : Int
  deriving DecidableEq, Repr

/-- The positive numbers that round to a double, in quarters of its unit: the double itself at
`center`, and the ends, which belong to it if its significand is even. -/
structure Interval where
  low : Nat
  center : Nat
  high : Nat
  closed : Bool

/-- The interval of `significand · 2 ^ exponent`; below a power of two the neighbours lie twice as
dense. -/
def intervalOf (significand : Nat) (exponent : Int) : Interval :=
  let narrow := significand = Numeral.power 2 52 ∧ Binary64.minExponent < exponent
  { low := 4 * significand - if narrow then 1 else 2
    center := 4 * significand
    high := 4 * significand + 2
    closed := significand % 2 = 0 }

/-- A power, and its reciprocal's denominator: `base ^ exponent` is the first over the second. -/
def powerRatio (base : Nat) (exponent : Int) : Nat × Nat :=
  if 0 ≤ exponent then (Numeral.power base exponent.toNat, 1)
  else (1, Numeral.power base (-exponent).toNat)

/-- The point of the grid `10 ^ place` that rounds to the double and lies nearest to it, if the
grid has one. -/
def onGrid? (tie : Tie) (interval : Interval) (quarter place : Int) : Option Nat :=
  let (binaryNum, binaryDen) := powerRatio 2 quarter
  let (gridNum, gridDen) := powerRatio 10 place
  let num := binaryNum * gridDen
  let den := binaryDen * gridNum
  let inside (point : Nat) : Bool :=
    if interval.closed then interval.low * num ≤ point * den && point * den ≤ interval.high * num
    else interval.low * num < point * den && point * den < interval.high * num
  let below := interval.center * num / den
  let rest := 2 * (interval.center * num % den)
  let takeBelow : Bool :=
    if rest < den then true
    else if den < rest then false
    else match tie with
      | .up => false
      | .even => below % 2 = 0
  match inside below, inside (below + 1) with
  | true, true => some (if takeBelow then below else below + 1)
  | true, false => some below
  | false, true => some (below + 1)
  | false, false => none

/-- Moves trailing zeros of the digits into the exponent. -/
def dropZeros : Nat → Decimal → Decimal
  | 0, number => number
  | fuel + 1, number =>
    if number.digits ≠ 0 ∧ number.digits % 10 = 0 then
      dropZeros fuel { digits := number.digits / 10, exponent := number.exponent + 1 }
    else number

/-- The number of decimal digits before the point; for a number below one, minus the number of
zeros right after it. No double is below `10 ^ -400`. -/
def leadingPlace (significand : Nat) (exponent : Int) : Int :=
  let (num, den) := powerRatio 2 exponent
  ((Nat.toDigits 10 (significand * num * Numeral.power 10 400 / den)).length : Int) - 400

/-- The digits of the positive number `significand · 2 ^ exponent`: the coarsest decimal grid with
a point that rounds to it. Seventeen digits always do. -/
def digitsOf (tie : Tie) (significand : Nat) (exponent : Int) : Decimal :=
  let interval := intervalOf significand exponent
  let lead := leadingPlace significand exponent
  let found := (List.range 17).findSome? fun (count : Nat) =>
    let place := lead - (count + 1)
    (onGrid? tie interval (exponent - 2) place).map fun point =>
      ({ digits := point, exponent := place } : Decimal)
  dropZeros 20 (found.getD { digits := 0, exponent := 0 })

/-- Digits with the point where it belongs and no exponent. -/
def positional (number : Decimal) : List Char :=
  let digits := Numeral.natural number.digits
  if 0 ≤ number.exponent then digits ++ List.replicate number.exponent.toNat '0'
  else
    let point : Int := digits.length + number.exponent
    if 0 < point then digits.take point.toNat ++ '.' :: digits.drop point.toNat
    else '0' :: '.' :: (List.replicate (-point).toNat '0' ++ digits)

/-- One digit before the point, and an exponent with its sign. -/
def scientific (number : Decimal) : List Char :=
  let digits := Numeral.natural number.digits
  let exponent : Int := number.exponent + digits.length - 1
  let fraction := digits.drop 1
  digits.take 1 ++ (if fraction.isEmpty then [] else '.' :: fraction) ++
    'e' :: (if exponent < 0 then '-' else '+') :: Numeral.natural exponent.natAbs

end AttributeFilter.Shortest

namespace AttributeFilter.Binary64

def signText (negative : Bool) : List Char :=
  if negative then ['-'] else []

/-- The text of a double in positional notation. Of two equally near decimals the greater is
written; whole numbers have no point, and the signs of zero and infinity are kept. -/
def plainText : Binary64 → List Char
  | .nan => "NaN".toList
  | .infinite negative => signText negative ++ "inf".toList
  | .finite negative significand exponent =>
    signText negative ++
      if significand = 0 then ['0']
      else Shortest.positional (Shortest.digitsOf .up significand exponent)

/-- The text of a finite double as a number of a document: positional from `10 ^ -5` to below
`10 ^ 16`, where a whole number ends in `.0`, and with an exponent elsewhere. Of two equally near
decimals the one with the even last digit is written. Other doubles have none. -/
def scientificText? : Binary64 → Option (List Char)
  | .nan => none
  | .infinite _ => none
  | .finite negative significand exponent =>
    some <| signText negative ++
      if significand = 0 then "0.0".toList
      else
        let number := Shortest.digitsOf .even significand exponent
        let lead : Int := number.exponent + (Numeral.natural number.digits).length - 1
        if -5 ≤ lead ∧ lead < 16 then
          Shortest.positional number ++ if 0 ≤ number.exponent then ".0".toList else []
        else Shortest.scientific number

end AttributeFilter.Binary64
