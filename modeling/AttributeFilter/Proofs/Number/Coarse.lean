import AttributeFilter.Proofs.Number.Double

/-!
# Whole numbers that share a double

Up to `2 ^ 53` every whole number is a double. From there on a double stands for the whole numbers
around it as well: for both of its neighbours if it is a multiple of four, and for itself alone if it
is not, as a tie goes to the even significand. Beyond `2 ^ 54` all doubles are multiples of four. So
a double is the nearest one of several whole numbers of 64 bits exactly if it is a multiple of four
from `2 ^ 53` to `2 ^ 63`, of either sign.

## Main definitions

* `Binary64.Coarse`: a multiple of four in this range.

## Main results

* `Binary64.equals_ofInt_iff`: a number is equal to a whole number if it stands for what this is
  rounded to.
* `Binary64.dvd_of_nearestNat_eq`: two whole numbers are only rounded to the same multiple of four.
* `Binary64.exists_nearestNat_eq`: two whole numbers of less than 64 binary digits are.
* `Binary64.coarse_iff`: the doubles that are equal to several whole numbers of 64 bits.
-/

namespace AttributeFilter.Binary64

variable {m n k : Nat} {x : Binary64}

/-- The number is a multiple of four from `2 ^ 53` to `2 ^ 63`, of either sign. -/
def Coarse (x : Binary64) : Prop :=
  ∃ number : Int, x.value? = some (((number : ℚ) : WithTop ℚ) : WithBot (WithTop ℚ)) ∧
    2 ^ 53 ≤ number.natAbs ∧ number.natAbs ≤ 2 ^ 63 ∧ 4 ∣ number.natAbs

/-! ### Numbers that are not rounded -/

theorem spacing_le (h : n < 2 ^ (53 + k)) : spacing n ≤ k := by
  rcases eq_or_ne n 0 with rfl | hn
  · exact Nat.zero_le k
  · have hlog := (Nat.log2_lt hn).2 h
    rw [spacing]
    omega

theorem roundHalfEven_mul_cancel {den : Nat} (hden : 0 < den) (h : den ∣ n) :
    roundHalfEven n den * den = n := by
  obtain ⟨c, rfl⟩ := h
  rw [Nat.mul_comm den c, roundHalfEven_mul hden]

/-- A multiple of its own spacing is not rounded. -/
theorem nearestNat_of_dvd (h : 2 ^ spacing n ∣ n) : nearestNat n = n :=
  roundHalfEven_mul_cancel (Nat.two_pow_pos _) h

theorem nearestNat_of_lt (h : n < 2 ^ 53) : nearestNat n = n := by
  have hspacing : spacing n = 0 := Nat.le_zero.1 (spacing_le h)
  exact nearestNat_of_dvd (by rw [hspacing, pow_zero]; exact one_dvd n)

theorem two_pow_le_nearestNat_iff : 2 ^ 53 ≤ nearestNat n ↔ 2 ^ 53 ≤ n := by
  constructor
  · intro h
    by_contra hlt
    rw [nearestNat_of_lt (Nat.lt_of_not_le hlt)] at h
    exact hlt h
  · intro h
    calc 2 ^ 53 = nearestNat (2 ^ 53) := (nearestNat_of_dvd (by decide)).symm
      _ ≤ nearestNat n := nearestNat_mono h

/-! ### Numbers that are rounded to the same -/

/-- A whole number of more than 53 binary digits is a double or is rounded to a multiple of four. -/
theorem nearestNat_eq_or_dvd (h : 2 ^ 53 ≤ n) : nearestNat n = n ∨ 4 ∣ nearestNat n := by
  have hlog : 53 ≤ n.log2 := (Nat.le_log2 (by omega)).2 h
  rcases (by rw [spacing]; omega : spacing n = 1 ∨ 2 ≤ spacing n) with hone | htwo
  · -- on the grid of the even numbers, an odd one lies between two and goes to the multiple of four
    rw [nearestNat, hone, pow_one, roundHalfEven]
    split_ifs <;> omega
  · exact .inr ((pow_dvd_pow 2 htwo).trans (Nat.dvd_mul_left _ _))

/-- Two whole numbers are only rounded to the same multiple of four, and not below `2 ^ 53`. -/
theorem dvd_of_nearestNat_eq (hne : m ≠ n) (h : nearestNat m = nearestNat n) :
    2 ^ 53 ≤ nearestNat n ∧ 4 ∣ nearestNat n := by
  by_cases hn : 2 ^ 53 ≤ n
  · have hlow := two_pow_le_nearestNat_iff.2 hn
    have hm : 2 ^ 53 ≤ m := two_pow_le_nearestNat_iff.1 (h ▸ hlow)
    refine ⟨hlow, ?_⟩
    rcases nearestNat_eq_or_dvd hn with hsame | hdvd
    · rcases nearestNat_eq_or_dvd hm with hsame' | hdvd
      · exact absurd (hsame'.symm.trans (h.trans hsame)) hne
      · rwa [← h]
    · exact hdvd
  · have hm : ¬ 2 ^ 53 ≤ m := fun hm =>
      hn (two_pow_le_nearestNat_iff.1 (h ▸ two_pow_le_nearestNat_iff.2 hm))
    rw [nearestNat_of_lt (Nat.lt_of_not_le hm), nearestNat_of_lt (Nat.lt_of_not_le hn)] at h
    exact absurd h hne

/-- One more than a multiple is rounded down; on the grid of the even numbers this is a tie. -/
theorem roundHalfEven_succ {den c : Nat} (hden : 2 ≤ den) (htie : den = 2 → c % 2 = 0) :
    roundHalfEven (c * den + 1) den = c := by
  have hquotient : (c * den + 1) / den = c := by
    rw [Nat.mul_comm, Nat.mul_add_div (by omega), Nat.div_eq_of_lt (by omega), Nat.add_zero]
  have hrest : (c * den + 1) % den = 1 := by
    rw [Nat.mul_comm, Nat.mul_add_mod, Nat.mod_eq_of_lt (by omega)]
  rw [roundHalfEven, hquotient, hrest]
  split_ifs <;> omega

/-- A multiple of four that is a double is the nearest one of its successor. -/
theorem nearestNat_succ (hlow : 2 ^ 53 ≤ n) (hfour : 4 ∣ n) (hdvd : 2 ^ spacing n ∣ n) :
    nearestNat (n + 1) = n := by
  have hlog : 53 ≤ n.log2 := (Nat.le_log2 (by omega)).2 hlow
  have hnext : (n + 1).log2 = n.log2 := by
    have hpower : 4 ∣ 2 ^ (n.log2 + 1) := pow_dvd_pow 2 (by omega : 2 ≤ n.log2 + 1)
    have hlt : n < 2 ^ (n.log2 + 1) := Nat.lt_log2_self
    refine (Nat.log2_eq_iff (Nat.succ_ne_zero n)).2 ⟨?_, by omega⟩
    exact (Nat.log2_self_le (by omega)).trans (Nat.le_succ n)
  have hspacing : spacing (n + 1) = spacing n := by rw [spacing, hnext, spacing]
  have hden : 2 ≤ 2 ^ spacing n := Nat.le_self_pow (by rw [spacing]; omega) 2
  obtain ⟨c, hc⟩ := hdvd
  have hrounded : roundHalfEven (n + 1) (2 ^ spacing n) = c := by
    have htie : 2 ^ spacing n = 2 → c % 2 = 0 := by
      intro htwo
      rw [htwo] at hc
      omega
    rw [← roundHalfEven_succ hden htie, Nat.mul_comm c, ← hc]
  rw [nearestNat, hspacing, hrounded, Nat.mul_comm, ← hc]

/-- A multiple of four in the range that is a double is the nearest one of two whole numbers. -/
theorem exists_nearestNat_eq (hlow : 2 ^ 53 ≤ n) (hhigh : n ≤ 2 ^ 63) (hfour : 4 ∣ n)
    (hdvd : 2 ^ spacing n ∣ n) :
    ∃ k m, k ≠ m ∧ (k < 2 ^ 63 ∧ nearestNat k = n) ∧ (m < 2 ^ 63 ∧ nearestNat m = n) := by
  rcases hhigh.lt_or_eq with hlt | rfl
  · exact ⟨n, n + 1, by omega, ⟨hlt, nearestNat_of_dvd hdvd⟩,
      by omega, nearestNat_succ hlow hfour hdvd⟩
  · exact ⟨2 ^ 63 - 1, 2 ^ 63 - 2, by decide, by decide, by decide⟩

/-! ### Doubles -/

/-- A whole number that is a double is a multiple of its own spacing. -/
theorem spacing_dvd_of_double {significand : Nat} {exponent : Int} (hsignificand : significand < 2 ^ 53)
    (h : (significand : ℚ) * 2 ^ exponent = n) : 2 ^ spacing n ∣ n := by
  by_cases hsign : 0 ≤ exponent
  · obtain ⟨places, rfl⟩ := Int.eq_ofNat_of_zero_le hsign
    have hn : significand * 2 ^ places = n := by exact_mod_cast h
    have hlt : n < 2 ^ (53 + places) := by
      rw [← hn, Nat.pow_add]
      exact Nat.mul_lt_mul_of_pos_right hsignificand (Nat.two_pow_pos places)
    rw [← hn] at hlt ⊢
    exact (pow_dvd_pow 2 (spacing_le hlt)).trans (Nat.dvd_mul_left _ _)
  · have hle : (n : ℚ) ≤ significand := by
      rw [← h]
      exact mul_le_of_le_one_right (Nat.cast_nonneg _)
        (zpow_le_one_of_nonpos₀ one_le_two (by omega))
    have hlt : n < 2 ^ (53 + 0) := lt_of_le_of_lt (Nat.cast_le.1 hle) hsignificand
    rw [Nat.le_zero.1 (spacing_le hlt), pow_zero]
    exact one_dvd n

/-- A double that is a whole number is a multiple of the spacing there. -/
theorem spacing_dvd_of_value? (hdouble : x.IsDouble) {number : Int}
    (h : x.value? = some (((number : ℚ) : WithTop ℚ) : WithBot (WithTop ℚ))) :
    2 ^ spacing number.natAbs ∣ number.natAbs := by
  cases x with
  | nan => cases h
  | infinite negative => cases negative <;> cases h
  | finite negative significand exponent =>
    have hvalue : rational negative significand exponent = number := by
      simpa [value?] using h
    have hpower : (0 : ℚ) < 2 ^ exponent := zpow_pos two_pos exponent
    have hmagnitude : (significand : ℚ) * 2 ^ exponent = number.natAbs := by
      rw [Nat.cast_natAbs, Int.cast_abs, ← hvalue, rational, abs_mul, abs_of_pos hpower]
      cases negative <;> simp
    exact spacing_dvd_of_double hdouble.1 hmagnitude

/-! ### Whole numbers with a sign -/

theorem natAbs_nearest (number : Int) : (nearest number).natAbs = nearestNat number.natAbs := by
  rw [nearest]
  split_ifs <;> omega

theorem nearest_withSign (negative : Bool) (k : Nat) :
    nearest (withSign negative k) = withSign negative (nearestNat k) := by
  cases negative with
  | false => simp [withSign, nearest]
  | true =>
    rcases eq_or_ne k 0 with rfl | hk
    · rfl
    · simp [withSign, nearest, hk]

/-- Only zero is rounded to zero, so a whole number is not rounded to the same as its negative. -/
theorem natAbs_ne_of_nearest_eq {a b : Int} (hne : a ≠ b) (h : nearest a = nearest b) :
    a.natAbs ≠ b.natAbs := by
  intro hsame
  have hone : 1 ≤ nearestNat b.natAbs := by
    have hpos : 1 ≤ b.natAbs := by omega
    exact (nearestNat_of_lt (by decide : 1 < 2 ^ 53)).symm.le.trans (nearestNat_mono hpos)
  rw [nearest, nearest, hsame] at h
  split_ifs at h <;> omega

/-- A number is equal to a whole number of 64 bits if it stands for what this is rounded to. -/
theorem equals_ofInt_iff {value : Int64} : x.equals (ofInt value.toInt) = true ↔
    x.value? = some (((nearest value.toInt : ℚ) : WithTop ℚ) : WithBot (WithTop ℚ)) := by
  have hvalue := value?_ofInt (log2_natAbs_toInt_lt value)
  rw [equals, beq_iff_eq]
  cases hx : x.value? with
  | none =>
    obtain rfl := value?_eq_none_iff.1 hx
    simp
  | some magnitude =>
    rw [compare?_eq hx hvalue, Option.some.injEq, Option.some.injEq]
    exact compare_eq_iff_eq

/-- The number of 64 bits with a sign and a magnitude of less. -/
theorem toInt_ofInt_withSign (negative : Bool) (h : k < 2 ^ 63) :
    (Int64.ofInt (withSign negative k)).toInt = withSign negative k := by
  refine Int64.toInt_ofInt_of_le ?_ ?_ <;> cases negative <;> simp [withSign] <;> omega

theorem natAbs_toInt_le (value : Int64) : value.toInt.natAbs ≤ 2 ^ 63 := by
  have hmin := value.le_toInt
  have hmax := value.toInt_lt
  omega

/-- Two whole numbers with the sign of a coarse double are rounded to it. -/
theorem Coarse.exists_equals (h : x.Coarse) (hdouble : x.IsDouble) :
    ∃ a b : Int64, a ≠ b ∧ x.equals (ofInt a.toInt) = true ∧ x.equals (ofInt b.toInt) = true := by
  obtain ⟨number, hvalue, hlow, hhigh, hfour⟩ := h
  obtain ⟨k, m, hne, ⟨hk, hnearest⟩, hm, hnearest'⟩ :=
    exists_nearestNat_eq hlow hhigh hfour (spacing_dvd_of_value? hdouble hvalue)
  obtain ⟨negative, hnumber⟩ : ∃ negative, withSign negative number.natAbs = number := by
    rcases Int.natAbs_eq number with hsign | hsign
    · exact ⟨false, hsign.symm⟩
    · exact ⟨true, hsign.symm⟩
  have hequals {j : Nat} (hj : j < 2 ^ 63) (hnearest : nearestNat j = number.natAbs) :
      x.equals (ofInt (Int64.ofInt (withSign negative j)).toInt) = true := by
    rw [equals_ofInt_iff, toInt_ofInt_withSign _ hj, nearest_withSign, hnearest, hnumber, hvalue]
  refine ⟨_, _, fun hsame => hne ?_, hequals hk hnearest, hequals hm hnearest'⟩
  have hsigned := congrArg Int64.toInt hsame
  rw [toInt_ofInt_withSign _ hk, toInt_ofInt_withSign _ hm] at hsigned
  cases negative <;> simp only [withSign] at hsigned <;> omega

/-- A number that is equal to two whole numbers is coarse. -/
theorem coarse_of_equals {a b : Int64} (hne : a ≠ b) (ha : x.equals (ofInt a.toInt) = true)
    (hb : x.equals (ofInt b.toInt) = true) : x.Coarse := by
  rw [equals_ofInt_iff] at ha hb
  have hnearest : nearest a.toInt = nearest b.toInt := by
    simpa using ha.symm.trans hb
  have hsame : nearestNat a.toInt.natAbs = nearestNat b.toInt.natAbs := by
    rw [← natAbs_nearest, ← natAbs_nearest, hnearest]
  obtain ⟨hlow, hfour⟩ :=
    dvd_of_nearestNat_eq (natAbs_ne_of_nearest_eq (mt Int64.toInt_inj.1 hne) hnearest) hsame
  have hword := natAbs_toInt_le b
  have hhigh : nearestNat b.toInt.natAbs ≤ 2 ^ 63 :=
    nearestNat_le_two_pow (spacing_le (lt_of_le_of_lt hword (by decide))) hword
  rw [← natAbs_nearest] at hlow hfour hhigh
  exact ⟨nearest b.toInt, hb, hlow, hhigh, hfour⟩

/-- The coarse doubles are those that are equal to several whole numbers of 64 bits. -/
theorem coarse_iff (hdouble : x.IsDouble) : x.Coarse ↔
    ∃ a b : Int64, a ≠ b ∧ x.equals (ofInt a.toInt) = true ∧ x.equals (ofInt b.toInt) = true := by
  constructor
  · exact fun h => h.exists_equals hdouble
  · rintro ⟨a, b, hne, ha, hb⟩
    exact coarse_of_equals hne ha hb

end AttributeFilter.Binary64
