import AttributeFilter.Number.Binary64
import Mathlib.Algebra.Order.Ring.Rat
import Mathlib.Algebra.Order.Field.Power
import Mathlib.Algebra.Order.Ring.Unbundled.Basic
import Mathlib.Order.WithBot

/-!
# The order of floating-point numbers

Every number of double precision stands for a rational number or for one of two infinities, and
comparing two of them is comparing what they stand for. The order of the numbers is therefore that
of a linear order; only not-a-number has no place in it.

## Main definitions

* `Binary64.value?`: what a number stands for.

## Main results

* `Binary64.isSome_compare?_iff`: which numbers are comparable.
* `Binary64.compare?_eq`: numbers lie to each other as what they stand for.
-/

namespace AttributeFilter.Binary64

/-- The rational number `± significand · 2 ^ exponent`. -/
def rational (negative : Bool) (significand : Nat) (exponent : Int) : ℚ :=
  (if negative then -(significand : ℚ) else significand) * 2 ^ exponent

/-- What a number stands for, between the two infinities; not-a-number stands for nothing. -/
def value? : Binary64 → Option (WithBot (WithTop ℚ))
  | .nan => none
  | .infinite true => some ⊥
  | .infinite false => some ⊤
  | .finite negative significand exponent =>
    some (rational negative significand exponent : WithTop ℚ)

theorem value?_eq_none_iff {x : Binary64} : x.value? = none ↔ x = .nan := by
  cases x with
  | nan => simp [value?]
  | infinite negative => cases negative <;> simp [value?]
  | finite negative significand exponent => simp [value?]

/-- Only not-a-number is not comparable. -/
theorem isSome_compare?_iff {x y : Binary64} :
    (x.compare? y).isSome = true ↔ x ≠ .nan ∧ y ≠ .nan := by
  cases x <;> cases y <;> simp [compare?]

/-- The integers that are compared are the rational numbers, scaled by a power of two. -/
theorem scaled_mul_zpow {base exponent : Int} (h : base ≤ exponent) (negative : Bool)
    (significand : Nat) :
    (scaled base negative significand exponent : ℚ) * 2 ^ base =
      rational negative significand exponent := by
  have hpower : (2 : ℚ) ^ (exponent - base).toNat * 2 ^ base = 2 ^ exponent := by
    rw [← zpow_natCast, Int.toNat_of_nonneg (by omega), ← zpow_add₀ two_ne_zero]
    congr 1
    omega
  cases negative <;> simp [scaled, rational, Numeral.power, mul_assoc, hpower]

theorem compare_scaled {base ea eb : Int} (ha : base ≤ ea) (hb : base ≤ eb) (na nb : Bool)
    (a b : Nat) :
    compare (scaled base na a ea) (scaled base nb b eb) =
      compare (rational na a ea) (rational nb b eb) := by
  rw [← scaled_mul_zpow ha, ← scaled_mul_zpow hb, ← cmp_eq_compare, ← cmp_eq_compare,
    cmp_mul_pos_right (zpow_pos two_pos base)]
  exact (Int.cast_strictMono.cmp_map_eq _ _).symm

theorem compare_coe (a b : ℚ) :
    compare ((a : WithTop ℚ) : WithBot (WithTop ℚ)) (b : WithTop ℚ) = compare a b := by
  rw [← cmp_eq_compare, ← cmp_eq_compare]
  exact (WithBot.coe_strictMono.comp WithTop.coe_strictMono).cmp_map_eq a b

/-- Numbers lie to each other as what they stand for. -/
theorem compare?_eq {x y : Binary64} {a b : WithBot (WithTop ℚ)} (hx : x.value? = some a)
    (hy : y.value? = some b) : x.compare? y = some (compare a b) := by
  have hbot (q : ℚ) : (⊥ : WithBot (WithTop ℚ)) < (q : WithTop ℚ) := WithBot.bot_lt_coe _
  have htop (q : ℚ) : ((q : WithTop ℚ) : WithBot (WithTop ℚ)) < ⊤ :=
    WithBot.coe_lt_coe.2 (WithTop.coe_lt_top q)
  have hends : (⊥ : WithBot (WithTop ℚ)) < ⊤ := bot_lt_top
  cases x with
  | nan => cases hx
  | infinite na =>
    cases y with
    | nan => cases hy
    | infinite nb =>
      cases na <;> cases nb <;> cases hx <;> cases hy
      · rw [compare_eq_iff_eq.2 rfl]
        rfl
      · rw [compare_gt_iff_gt.2 hends]
        rfl
      · rw [compare_lt_iff_lt.2 hends]
        rfl
      · rw [compare_eq_iff_eq.2 rfl]
        rfl
    | finite nb b eb =>
      cases na <;> cases hx <;> cases hy
      · rw [compare_gt_iff_gt.2 (htop _)]
        rfl
      · rw [compare_lt_iff_lt.2 (hbot _)]
        rfl
  | finite na a ea =>
    cases y with
    | nan => cases hy
    | infinite nb =>
      cases nb <;> cases hx <;> cases hy
      · rw [compare_lt_iff_lt.2 (htop _)]
        rfl
      · rw [compare_gt_iff_gt.2 (hbot _)]
        rfl
    | finite nb b eb =>
      cases hx
      cases hy
      rw [compare_coe, ← compare_scaled (min_le_left ea eb) (min_le_right ea eb)]
      rfl

end AttributeFilter.Binary64
