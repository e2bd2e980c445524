import AttributeFilter.Text.Numeral

/-!
# Binary floating-point numbers of 64 bits

Decimal attributes hold binary numbers of double precision. They are given here by what they
stand for, a sign, a whole significand and a power of two, so that comparing and rounding are
exact integer arithmetic.

## Main definitions

* `Binary64`: not-a-number, the two infinities, and `± significand · 2 ^ exponent`.
* `Binary64.ofRatio`: the double nearest to a quotient, a tie going to the even significand.
* `Binary64.ofInt`, `Binary64.ofDecimal`: the doubles nearest to a whole number and to a decimal.
* `Binary64.compare?`, `Binary64.equals`: the partial order of the numbers; not-a-number is in no
  relation, and the two zeros are equal.

## Main results

* `Binary64.compare?_nan_left`, `Binary64.compare?_nan_right`: not-a-number compares with nothing.
* `Binary64.compare?_swap`: swapping the two numbers swaps the answer.
-/

namespace AttributeFilter

/-- A number of double precision. A `finite` number stands for
`± significand · 2 ^ exponent`; rounding makes those with a significand below `2 ^ 53` and an
exponent between `-1074` and `971`. -/
inductive Binary64
  | nan
  | infinite (negative : Bool)
  | finite (negative : Bool) (significand : Nat) (exponent : Int)
  deriving DecidableEq, Repr, Inhabited

namespace Binary64

def minExponent : Int := -1074

def maxExponent : Int := 971

/-! ### Rounding -/

/-- The whole number nearest to a quotient, a tie going to the even neighbour. -/
def roundHalfEven (num den : Nat) : Nat :=
  let quotient := num / den
  let rest := 2 * (num % den)
  if rest < den then quotient
  else if den < rest then quotient + 1
  else if quotient % 2 = 0 then quotient
  else quotient + 1

/-- Rounds `num / den` to a multiple of `2 ^ exponent` and gives the multiple. -/
def significandAt (exponent : Int) (num den : Nat) : Nat :=
  if 0 ≤ exponent then roundHalfEven num (den * Numeral.power 2 exponent.toNat)
  else roundHalfEven (num * Numeral.power 2 (-exponent).toNat) den

/-- The exponent of the highest power of two that is at most `num / den`. -/
def floorLog2 (num den : Nat) : Int :=
  let guess : Int := (Nat.log2 num : Int) - Nat.log2 den
  let reached : Bool :=
    if 0 ≤ guess then den * Numeral.power 2 guess.toNat ≤ num
    else den ≤ num * Numeral.power 2 (-guess).toNat
  if reached then guess else guess - 1

/-- The double nearest to `± num / den`, a tie going to the even significand; too large a quotient
gives an infinity. -/
def ofRatio (negative : Bool) (num den : Nat) : Binary64 :=
  if num = 0 then .finite negative 0 minExponent
  else
    let exponent := max (floorLog2 num den - 52) minExponent
    let significand := significandAt exponent num den
    let carried := significand = Numeral.power 2 53
    let exponent := if carried then exponent + 1 else exponent
    if maxExponent < exponent then .infinite negative
    else .finite negative (if carried then Numeral.power 2 52 else significand) exponent

/-- The double nearest to a whole number. -/
def ofInt (number : Int) : Binary64 :=
  ofRatio (decide (number < 0)) number.natAbs 1

/-- The double nearest to `± digits · 10 ^ exponent`. A number of more than 400 digits before the
point is infinite, and one with 400 zeros after it is zero; those are told apart without writing
the power out. -/
def ofDecimal (negative : Bool) (digits : Nat) (exponent : Int) : Binary64 :=
  if digits = 0 then .finite negative 0 minExponent
  else
    let magnitude : Int := (Nat.toDigits 10 digits).length + exponent
    if 400 < magnitude then .infinite negative
    else if magnitude < -400 then .finite negative 0 minExponent
    else if 0 ≤ exponent then ofRatio negative (digits * Numeral.power 10 exponent.toNat) 1
    else ofRatio negative digits (Numeral.power 10 (-exponent).toNat)

/-! ### Order -/

/-- The number as a multiple of `2 ^ base`, for a base not above its exponent. -/
def scaled (base : Int) (negative : Bool) (significand : Nat) (exponent : Int) : Int :=
  let magnitude : Int := (significand * Numeral.power 2 (exponent - base).toNat : Nat)
  if negative then -magnitude else magnitude

/-- How two numbers lie to each other; `none` if one of them is not a number. -/
def compare? : Binary64 → Binary64 → Option Ordering
  | .nan, _ => none
  | _, .nan => none
  | .infinite a, .infinite b => some (compare (!a) (!b))
  | .infinite a, .finite _ _ _ => some (if a then .lt else .gt)
  | .finite _ _ _, .infinite b => some (if b then .gt else .lt)
  | .finite na a ea, .finite nb b eb =>
    let base := min ea eb
    some (compare (scaled base na a ea) (scaled base nb b eb))

def equals (x y : Binary64) : Bool :=
  compare? x y == some .eq

@[simp] theorem compare?_nan_left (x : Binary64) : compare? .nan x = none := rfl

@[simp] theorem compare?_nan_right (x : Binary64) : compare? x .nan = none := by
  cases x <;> rfl

theorem compare?_swap (x y : Binary64) : compare? y x = (compare? x y).map Ordering.swap := by
  cases x with
  | nan => simp
  | infinite a =>
    cases y with
    | nan => rfl
    | infinite b => cases a <;> cases b <;> rfl
    | finite nb b eb => cases a <;> rfl
  | finite na a ea =>
    cases y with
    | nan => rfl
    | infinite b => cases b <;> rfl
    | finite nb b eb =>
      simp only [compare?, Option.map_some, Option.some.injEq]
      rw [Int.min_comm eb ea, ← Int.compare_swap]

end Binary64

end AttributeFilter
