import AttributeFilter.Text.Blank
import AttributeFilter.Text.Numeral
import Mathlib.Data.List.TakeWhile

/-!
# Decimal numerals

A number that is written in decimal is read back, in as many digits as it needs or in any number of
digits that holds it. Digits end where something else begins, so a number can be read at the front of
a text.

## Main results

* `Numeral.ofDecimal_fixed`: so many last digits are read as what is left of the number.
* `Numeral.ofDecimal_natural`, `Numeral.ofDecimal_padded`: a number is read back from its digits,
  with leading zeros or without.
* `Numeral.takeWhile_isDigit`: the digits at the front of a text.
* `Numeral.isBlank_eq_false_of_isDigit`: no digit is a blank.
-/

namespace AttributeFilter.Numeral

/-! ### One digit -/

theorem digit?_digitChar {digit : Nat} (h : digit < 10) :
    digit? (Nat.digitChar digit) = some digit := by
  have hall : ∀ digit ∈ List.range 10, digit? (Nat.digitChar digit) = some digit := by decide
  exact hall digit (List.mem_range.2 h)

theorem isDigit_digitChar {digit : Nat} (h : digit < 10) : isDigit (Nat.digitChar digit) = true := by
  rw [isDigit, digit?_digitChar h, Option.isSome_some]

/-- One more digit behind a numeral. -/
theorem ofDecimal_append_digitChar {digit : Nat} (h : digit < 10) (text : List Char) :
    ofDecimal (text ++ [Nat.digitChar digit]) = ofDecimal text * 10 + digit := by
  have hdigit : [Nat.digitChar digit].filterMap digit? = [digit] := by
    rw [List.filterMap_cons, digit?_digitChar h, List.filterMap_nil]
  rw [ofDecimal, List.filterMap_append, hdigit, ofDigits, List.foldl_append]
  rfl

/-- Zeros in front of a numeral do not count. -/
theorem ofDecimal_replicate_append (zeros : Nat) (text : List Char) :
    ofDecimal (List.replicate zeros '0' ++ text) = ofDecimal text := by
  induction zeros with
  | zero => rfl
  | succ zeros ih => rwa [List.replicate_succ, List.cons_append]

theorem isBlank_eq_false_of_isDigit {c : Char} (h : isDigit c = true) :
    Text.isBlank c = false := by
  have hbounds : '0' ≤ c ∧ c ≤ '9' := by
    rw [isDigit, digit?] at h
    split at h
    · next hdigit => exact hdigit
    · cases h
  exact Text.isBlank_eq_false (Nat.le_trans (by decide) hbounds.1)
    (Nat.le_trans hbounds.2 (by decide))

/-! ### So many digits -/

theorem isDigit_fixed : (width number : Nat) → ∀ c ∈ fixed 10 width number, isDigit c = true
  | 0, _, c, h => absurd h List.not_mem_nil
  | width + 1, number, c, h => by
    rw [fixed, List.mem_append, List.mem_singleton] at h
    rcases h with h | rfl
    · exact isDigit_fixed width (number / 10) c h
    · exact isDigit_digitChar (Nat.mod_lt number (by decide))

theorem isBlank_eq_false_of_mem_fixed (width number : Nat) :
    ∀ c ∈ fixed 10 width number, Text.isBlank c = false := fun c hc =>
  isBlank_eq_false_of_isDigit (isDigit_fixed width number c hc)

theorem fixed_ne_nil {width : Nat} (h : 0 < width) (number : Nat) : fixed 10 width number ≠ [] := by
  rwa [← List.length_pos_iff, length_fixed]

/-- The last digits of a number are read as what is left of it. -/
theorem ofDecimal_fixed : (width number : Nat) →
    ofDecimal (fixed 10 width number) = number % power 10 width
  | 0, number => (Nat.mod_one number).symm
  | width + 1, number => by
    have hpower : power 10 (width + 1) = 10 * power 10 width := Nat.mul_comm _ _
    rw [fixed, ofDecimal_append_digitChar (Nat.mod_lt number (by decide)),
      ofDecimal_fixed width (number / 10), hpower, Nat.mod_mul, Nat.mul_comm, Nat.add_comm]

/-! ### As many digits as it needs -/

/-- A number of more than one digit is written as the number without its last one, and that one. -/
theorem natural_eq (number : Nat) : natural number =
    if number < 10 then [Nat.digitChar number]
    else natural (number / 10) ++ [Nat.digitChar (number % 10)] :=
  Nat.toDigits_eq_if (by decide)

theorem isDigit_natural (number : Nat) : ∀ c ∈ natural number, isDigit c = true := by
  induction number using Nat.strong_induction_on with
  | _ number ih =>
    rw [natural_eq]
    split
    · next h => exact List.forall_mem_singleton.2 (isDigit_digitChar h)
    · next h =>
      rw [List.forall_mem_append, List.forall_mem_singleton]
      exact ⟨ih (number / 10) (by omega), isDigit_digitChar (Nat.mod_lt number (by decide))⟩

theorem ofDecimal_natural (number : Nat) : ofDecimal (natural number) = number := by
  induction number using Nat.strong_induction_on with
  | _ number ih =>
    rw [natural_eq]
    split
    · next h => exact (ofDecimal_append_digitChar h []).trans (Nat.zero_add number)
    · next h =>
      rw [ofDecimal_append_digitChar (Nat.mod_lt number (by decide)), ih (number / 10) (by omega)]
      omega

theorem natural_ne_nil (number : Nat) : natural number ≠ [] := by
  rw [natural_eq]
  split
  · exact List.cons_ne_nil _ _
  · exact List.append_ne_nil_of_right_ne_nil _ (List.cons_ne_nil _ _)

/-- A text of digits alone is read to its end. -/
theorem decimal?_natural (number : Nat) : decimal? (natural number) = some number := by
  have hempty : (natural number).isEmpty = false := by simpa using natural_ne_nil number
  have hdigits : (natural number).all isDigit = true := List.all_eq_true.2 (isDigit_natural number)
  rw [decimal?, hempty, hdigits, if_neg (by decide), ofDecimal_natural]

theorem isDigit_padded (width number : Nat) : ∀ c ∈ padded width number, isDigit c = true := by
  rw [padded, List.forall_mem_append]
  refine ⟨fun c hc => ?_, isDigit_natural number⟩
  rw [List.eq_of_mem_replicate hc]
  rfl

/-- Leading zeros make no difference. -/
theorem ofDecimal_padded (width number : Nat) : ofDecimal (padded width number) = number := by
  rw [padded, ofDecimal_replicate_append, ofDecimal_natural]

theorem padded_ne_nil (width number : Nat) : padded width number ≠ [] :=
  List.append_ne_nil_of_right_ne_nil _ (natural_ne_nil number)

/-! ### At the front of a text -/

/-- Digits at the front of a text end where something else begins. -/
theorem takeWhile_isDigit {digits rest : List Char} (hdigits : ∀ c ∈ digits, isDigit c = true)
    (hrest : ∀ c ∈ rest.head?, isDigit c = false) :
    (digits ++ rest).takeWhile isDigit = digits := by
  have hnone : rest.takeWhile isDigit = [] := by
    cases rest with
    | nil => rfl
    | cons c rest => exact List.takeWhile_cons_of_neg (by simp [hrest c rfl])
  rw [List.takeWhile_append_of_pos hdigits, hnone, List.append_nil]

end AttributeFilter.Numeral
