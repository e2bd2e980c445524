import AttributeFilter.Proofs.Number.Order
import Mathlib.Tactic.Ring

/-!
# Rounding whole numbers

A whole number of more than 53 binary digits is rounded to a multiple of a power of two, the same
power for all numbers of as many digits. Rounding keeps the order of whole numbers, though it makes
some of them equal.

## Main definitions

* `Binary64.nearestNat`, `Binary64.nearest`: the whole number that the double nearest to a whole
  number stands for.

## Main results

* `Binary64.nearest_mono`: rounding keeps the order of whole numbers.
* `Binary64.value?_ofInt`: what the double nearest to a whole number stands for.
-/

namespace AttributeFilter.Binary64

/-! ### Quotients -/

/-- A greater dividend is not rounded to less. -/
theorem roundHalfEven_mono {m n den : Nat} (h : m ≤ n) :
    roundHalfEven m den ≤ roundHalfEven n den := by
  have hquotient : m / den ≤ n / den := Nat.div_le_div_right h
  have hm := Nat.div_add_mod m den
  have hn := Nat.div_add_mod n den
  rcases hquotient.lt_or_eq with hlt | heq
  · unfold roundHalfEven
    dsimp only
    split_ifs <;> omega
  · rw [heq] at hm
    have hrest : m % den ≤ n % den := by omega
    unfold roundHalfEven
    dsimp only
    rw [heq]
    split_ifs <;> omega

theorem roundHalfEven_mul {den : Nat} (hden : 0 < den) (c : Nat) :
    roundHalfEven (c * den) den = c := by
  unfold roundHalfEven
  simp [Nat.mul_div_cancel c hden, hden]

theorem roundHalfEven_one (n : Nat) : roundHalfEven n 1 = n := by
  have h := roundHalfEven_mul one_pos n
  rwa [Nat.mul_one] at h

/-! ### Whole numbers -/

/-- The spacing of the doubles around a whole number, as the power of two that it is. -/
def spacing (n : Nat) : Nat :=
  n.log2 - 52

/-- The number that the double nearest to `n` stands for. -/
def nearestNat (n : Nat) : Nat :=
  roundHalfEven n (2 ^ spacing n) * 2 ^ spacing n

theorem two_pow_eq_mul_spacing {n k : Nat} (h : spacing n ≤ k) :
    2 ^ k = 2 ^ (k - spacing n) * 2 ^ spacing n := by
  rw [← Nat.pow_add, Nat.sub_add_cancel h]

/-- Rounding does not pass a power of two that is a multiple of the spacing. -/
theorem nearestNat_le_two_pow {n k : Nat} (hspacing : spacing n ≤ k) (h : n ≤ 2 ^ k) :
    nearestNat n ≤ 2 ^ k := by
  rw [two_pow_eq_mul_spacing hspacing] at h ⊢
  refine Nat.mul_le_mul_right _ ?_
  rw [← roundHalfEven_mul (Nat.two_pow_pos (spacing n)) (2 ^ (k - spacing n))]
  exact roundHalfEven_mono h

theorem two_pow_le_nearestNat {n k : Nat} (hspacing : spacing n ≤ k) (h : 2 ^ k ≤ n) :
    2 ^ k ≤ nearestNat n := by
  rw [two_pow_eq_mul_spacing hspacing] at h ⊢
  refine Nat.mul_le_mul_right _ ?_
  rw [← roundHalfEven_mul (Nat.two_pow_pos (spacing n)) (2 ^ (k - spacing n))]
  exact roundHalfEven_mono h

theorem log2_mono {m n : Nat} (h : m ≤ n) : m.log2 ≤ n.log2 := by
  rcases eq_or_ne m 0 with rfl | hm
  · simp
  · exact (Nat.le_log2 (by omega)).2 ((Nat.log2_self_le hm).trans h)

/-- Numbers of as many binary digits have the same spacing; between others lies a power of two. -/
theorem nearestNat_mono {m n : Nat} (h : m ≤ n) : nearestNat m ≤ nearestNat n := by
  rcases (log2_mono h).lt_or_eq with hlt | heq
  · have hn : n ≠ 0 := by
      rintro rfl
      simp at hlt
    calc nearestNat m ≤ 2 ^ (m.log2 + 1) :=
          nearestNat_le_two_pow (by unfold spacing; omega) Nat.lt_log2_self.le
      _ ≤ 2 ^ n.log2 := Nat.pow_le_pow_right two_pos hlt
      _ ≤ nearestNat n :=
          two_pow_le_nearestNat (Nat.sub_le _ _) (Nat.log2_self_le hn)
  · have hspacing : spacing m = spacing n := by rw [spacing, spacing, heq]
    rw [nearestNat, nearestNat, hspacing]
    exact Nat.mul_le_mul_right _ (roundHalfEven_mono h)

/-- The number that the double nearest to a whole number stands for. -/
def nearest (n : Int) : Int :=
  if n < 0 then -(nearestNat n.natAbs : Int) else nearestNat n.natAbs

theorem nearest_mono {m n : Int} (h : m ≤ n) : nearest m ≤ nearest n := by
  unfold nearest
  split_ifs with hm hn hn
  · exact neg_le_neg (Int.ofNat_le.2 (nearestNat_mono (by omega)))
  · omega
  · omega
  · exact Int.ofNat_le.2 (nearestNat_mono (by omega))

/-! ### Doubles -/

theorem floorLog2_one {n : Nat} (hn : n ≠ 0) : floorLog2 n 1 = n.log2 := by
  have hreached : Numeral.power 2 n.log2 ≤ n := Nat.log2_self_le hn
  have hone : Nat.log2 1 = 0 := rfl
  simp [floorLog2, hone, hreached]

/-- The significand of a whole number, at the exponent that is chosen for it. -/
theorem significandAt_mul_zpow (n : Nat) :
    (significandAt (n.log2 - 52) n 1 : ℚ) * 2 ^ ((n.log2 : Int) - 52) = nearestNat n := by
  by_cases hlog : 52 ≤ n.log2
  · have hexponent : (n.log2 : Int) - 52 = (spacing n : Nat) := by
      unfold spacing
      omega
    rw [hexponent, significandAt, if_pos (Int.natCast_nonneg _), Int.toNat_natCast, Nat.one_mul,
      zpow_natCast, nearestNat, Nat.cast_mul, Nat.cast_pow]
    rfl
  · have hexponent : (n.log2 : Int) - 52 = -((52 - n.log2 : Nat) : Int) := by omega
    have hspacing : spacing n = 0 := by
      unfold spacing
      omega
    rw [hexponent, significandAt, if_neg (by omega), neg_neg, Int.toNat_natCast, roundHalfEven_one,
      nearestNat, hspacing, pow_zero, roundHalfEven_one, zpow_neg, zpow_natCast]
    have hpower : ((Numeral.power 2 (52 - n.log2) : Nat) : ℚ) = 2 ^ (52 - n.log2) :=
      Nat.cast_pow 2 _
    rw [Nat.cast_mul, hpower, mul_assoc, mul_inv_cancel₀ (pow_ne_zero _ two_ne_zero), Nat.mul_one,
      mul_one]

theorem rational_eq_of_mul_zpow {a b : Nat} {ea eb : Int}
    (h : (a : ℚ) * 2 ^ ea = (b : ℚ) * 2 ^ eb) (negative : Bool) :
    rational negative a ea = rational negative b eb := by
  cases negative <;> simp [rational, h]

/-- A whole number of less than 1024 binary digits is rounded to a finite number. -/
theorem value?_ofRatio_one (negative : Bool) {n : Nat} (h : n.log2 < 1023) :
    (ofRatio negative n 1).value? = (finite negative (nearestNat n) 0).value? := by
  rcases eq_or_ne n 0 with rfl | hn
  · have hzero : nearestNat 0 = 0 := rfl
    cases negative <;> simp [ofRatio, value?, rational, hzero]
  have hexponent : max (floorLog2 n 1 - 52) minExponent = (n.log2 : Int) - 52 := by
    rw [floorLog2_one hn, minExponent]
    omega
  have hvalue := significandAt_mul_zpow n
  rw [ofRatio, if_neg hn]
  simp only [hexponent]
  by_cases hcarried : significandAt (n.log2 - 52) n 1 = Numeral.power 2 53
  · have hcarry : ((Numeral.power 2 52 : Nat) : ℚ) * 2 ^ ((n.log2 : Int) - 52 + 1) =
        (nearestNat n : ℚ) * 2 ^ (0 : Int) := by
      rw [zpow_zero, mul_one, ← hvalue, hcarried, zpow_add_one₀ two_ne_zero, Numeral.power,
        Numeral.power]
      norm_num
      ring
    rw [if_pos hcarried, if_pos hcarried, if_neg (by unfold maxExponent; omega)]
    simp only [value?, rational_eq_of_mul_zpow hcarry]
  · have hkept : (significandAt (n.log2 - 52) n 1 : ℚ) * 2 ^ ((n.log2 : Int) - 52) =
        (nearestNat n : ℚ) * 2 ^ (0 : Int) := by
      rw [hvalue, zpow_zero, mul_one]
    rw [if_neg hcarried, if_neg hcarried, if_neg (by unfold maxExponent; omega)]
    simp only [value?, rational_eq_of_mul_zpow hkept]

theorem value?_ofInt {n : Int} (h : n.natAbs.log2 < 1023) :
    (ofInt n).value? = some (((nearest n : ℚ) : WithTop ℚ) : WithBot (WithTop ℚ)) := by
  rw [ofInt, value?_ofRatio_one _ h, nearest, value?, rational]
  by_cases hn : n < 0 <;> simp [hn]

/-- A whole number of 64 bits has far fewer binary digits than the greatest double. -/
theorem log2_natAbs_toInt_lt (n : Int64) : n.toInt.natAbs.log2 < 1023 := by
  have hbound : n.toInt.natAbs < 2 ^ 64 := by
    have hlow := n.le_toInt
    have hhigh := n.toInt_lt
    omega
  rcases eq_or_ne n.toInt.natAbs 0 with hzero | hzero
  · rw [hzero]
    decide
  · have := (Nat.log2_lt hzero).2 hbound
    omega

end AttributeFilter.Binary64
