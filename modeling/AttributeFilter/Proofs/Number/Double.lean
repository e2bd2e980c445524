import AttributeFilter.Number.Reading
import AttributeFilter.Proofs.Number.Rounding

/-!
# The numbers that are read

Whatever is read as a number is a double: rounding a quotient to its leading 53 binary digits gives
a significand of no more digits, since a carry into one more digit is taken into the exponent.

## Main definitions

* `Binary64.IsDouble`: a significand of at most 53 binary digits, and an exponent in range.

## Main results

* `Binary64.lt_mul_zpow_floorLog2`: a quotient is less than the power of two above its own.
* `Binary64.isDouble_ofRatio`: a quotient is rounded to a double.
* `Binary64.isDouble_of_ofText?`: a text is read as a double.
-/

namespace AttributeFilter.Binary64

/-- An infinity, no number, or a significand and an exponent in the range of doubles. -/
def IsDouble : Binary64 → Prop
  | nan | infinite _ => True
  | finite _ significand exponent =>
    significand < 2 ^ 53 ∧ minExponent ≤ exponent ∧ exponent ≤ maxExponent

variable {num den : Nat} {exponent : Int}

/-! ### Quotients -/

theorem cast_power (base places : Nat) : ((Numeral.power base places : Nat) : ℚ) = base ^ places :=
  Nat.cast_pow base places

/-- The power of two that belongs to a whole exponent. -/
theorem cast_power_two_toNat (h : 0 ≤ exponent) :
    ((Numeral.power 2 exponent.toNat : Nat) : ℚ) = 2 ^ exponent := by
  rw [cast_power, Nat.cast_ofNat, ← zpow_natCast, Int.toNat_of_nonneg h]

/-- A quotient is less than the power of two above the highest one that it reaches. -/
theorem lt_mul_zpow_floorLog2 (hden : den ≠ 0) :
    (num : ℚ) < den * 2 ^ (floorLog2 num den + 1) := by
  have hguess : (num : ℚ) < den * 2 ^ ((num.log2 : Int) - den.log2 + 1) := by
    have hnum : (num : ℚ) < 2 ^ (num.log2 + 1) := by
      exact_mod_cast Nat.lt_log2_self
    have hlow : (2 : ℚ) ^ den.log2 ≤ den := by
      exact_mod_cast Nat.log2_self_le hden
    calc (num : ℚ) < 2 ^ (num.log2 + 1) := hnum
      _ = 2 ^ den.log2 * 2 ^ ((num.log2 : Int) - den.log2 + 1) := by
        rw [← zpow_natCast, ← zpow_natCast, ← zpow_add₀ two_ne_zero]
        congr 1
        omega
      _ ≤ den * 2 ^ ((num.log2 : Int) - den.log2 + 1) :=
        mul_le_mul_of_nonneg_right hlow (zpow_pos two_pos _).le
  rw [floorLog2]
  generalize (num.log2 : Int) - den.log2 = guess at hguess
  -- where the guess is not reached, the test itself says that the quotient is less
  by_cases hsign : 0 ≤ guess
  · simp only [hsign, if_true, decide_eq_true_eq]
    split
    · exact hguess
    · next hreached =>
      rw [sub_add_cancel, ← cast_power_two_toNat hsign]
      exact_mod_cast Nat.lt_of_not_le hreached
  · simp only [hsign, if_false, decide_eq_true_eq]
    split
    · exact hguess
    · next hreached =>
      have hless : (num : ℚ) * 2 ^ (-guess) < den := by
        rw [← cast_power_two_toNat (by omega : 0 ≤ -guess)]
        exact_mod_cast Nat.lt_of_not_le hreached
      rw [sub_add_cancel]
      calc (num : ℚ) = num * 2 ^ (-guess) * 2 ^ guess := by
            rw [mul_assoc, ← zpow_add₀ two_ne_zero, neg_add_cancel, zpow_zero, mul_one]
        _ < den * 2 ^ guess := mul_lt_mul_of_pos_right hless (zpow_pos two_pos guess)

/-- A quotient that is not too great for an exponent has a significand of 53 binary digits there, or
the next power of two. -/
theorem significandAt_le (hden : 0 < den) (h : (num : ℚ) ≤ (2 ^ 53 : Nat) * (den * 2 ^ exponent)) :
    significandAt exponent num den ≤ 2 ^ 53 := by
  have hbound {n d : Nat} (hd : 0 < d) (hle : n ≤ 2 ^ 53 * d) : roundHalfEven n d ≤ 2 ^ 53 := by
    rw [← roundHalfEven_mul hd (2 ^ 53)]
    exact roundHalfEven_mono hle
  rw [significandAt]
  split
  · next hsign =>
    refine hbound (Nat.mul_pos hden (Nat.pow_pos two_pos)) ?_
    rw [← Nat.cast_le (α := ℚ), Nat.cast_mul, Nat.cast_mul, cast_power_two_toNat hsign]
    exact h
  · next hsign =>
    refine hbound hden ?_
    rw [← Nat.cast_le (α := ℚ), Nat.cast_mul, Nat.cast_mul, cast_power_two_toNat (by omega)]
    calc (num : ℚ) * 2 ^ (-exponent)
        ≤ (2 ^ 53 : Nat) * (den * 2 ^ exponent) * 2 ^ (-exponent) :=
          mul_le_mul_of_nonneg_right h (zpow_pos two_pos _).le
      _ = (2 ^ 53 : Nat) * den := by
          rw [mul_assoc, mul_assoc, ← zpow_add₀ two_ne_zero, add_neg_cancel, zpow_zero, mul_one]

/-- The exponent that is chosen for a quotient leaves it a significand of 53 binary digits, or the
next power of two. -/
theorem significandAt_floorLog2_le (num : Nat) (hden : 0 < den) :
    significandAt (max (floorLog2 num den - 52) minExponent) num den ≤ 2 ^ 53 := by
  refine significandAt_le hden ?_
  have hexponent : floorLog2 num den + 1 ≤
      (53 : Int) + max (floorLog2 num den - 52) minExponent := by
    omega
  calc (num : ℚ) ≤ den * 2 ^ (floorLog2 num den + 1) := (lt_mul_zpow_floorLog2 hden.ne').le
    _ ≤ den * 2 ^ ((53 : Int) + max (floorLog2 num den - 52) minExponent) :=
        mul_le_mul_of_nonneg_left (zpow_le_zpow_right₀ one_le_two hexponent) (Nat.cast_nonneg den)
    _ = (2 ^ 53 : Nat) * (den * 2 ^ max (floorLog2 num den - 52) minExponent) := by
        rw [zpow_add₀ two_ne_zero, mul_left_comm]
        norm_num

/-! ### Numbers -/

theorem isDouble_zero (negative : Bool) : (finite negative 0 minExponent).IsDouble :=
  ⟨by decide, le_rfl, by decide⟩

theorem isDouble_ofRatio (negative : Bool) (num : Nat) (hden : 0 < den) :
    (ofRatio negative num den).IsDouble := by
  have hsignificand := significandAt_floorLog2_le num hden
  rw [ofRatio]
  split
  · exact isDouble_zero negative
  dsimp only
  have hmin : minExponent ≤ max (floorLog2 num den - 52) minExponent := le_max_right _ _
  generalize max (floorLog2 num den - 52) minExponent = exponent at *
  by_cases hcarried : significandAt exponent num den = Numeral.power 2 53
  · rw [if_pos hcarried, if_pos hcarried]
    split
    · trivial
    · next hmax => exact ⟨by decide, by omega, by omega⟩
  · rw [if_neg hcarried, if_neg hcarried]
    split
    · trivial
    · next hmax => exact ⟨lt_of_le_of_ne hsignificand hcarried, hmin, by omega⟩

theorem isDouble_ofDecimal (negative : Bool) (digits : Nat) (exponent : Int) :
    (ofDecimal negative digits exponent).IsDouble := by
  rw [ofDecimal]
  dsimp only
  split_ifs
  · exact isDouble_zero negative
  · trivial
  · exact isDouble_zero negative
  · exact isDouble_ofRatio negative _ one_pos
  · exact isDouble_ofRatio negative _ (Nat.pow_pos (by decide))

theorem isDouble_of_ofText? {text : List Char} {number : Binary64} (h : ofText? text = some number) :
    number.IsDouble := by
  rw [ofText?] at h
  dsimp only at h
  split_ifs at h
  · obtain rfl := Option.some.inj h
    trivial
  · obtain rfl := Option.some.inj h
    trivial
  · simp only [magnitudeOfText?, Option.ite_none_left_eq_some, Option.map_eq_some_iff] at h
    obtain ⟨-, exponent, -, rfl⟩ := h
    exact isDouble_ofDecimal _ _ _

end AttributeFilter.Binary64
