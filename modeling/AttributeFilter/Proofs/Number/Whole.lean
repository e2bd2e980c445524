import AttributeFilter.Number.Reading
import AttributeFilter.Proofs.Text.Numeral

/-!
# The text of a whole number

A whole number is written in decimal, with a sign in front only if it is negative, and is read back
from this text. This holds up to both ends of the 64 bits: the digits of the least number have no
whole number of 64 bits by themselves, but they are read together with their sign.

## Main results

* `splitSign_of_isDigit`: digits have no sign.
* `toList_toString_eq`: the text of a whole number.
* `Int64.ofText?_text`: a whole number of 64 bits is read back.
* `isBlank_eq_false_of_mem_toString`: there are no blanks in its text.
-/

namespace AttributeFilter

/-- Digits have no sign in front of them. -/
theorem splitSign_of_isDigit {digits : List Char}
    (hdigits : ∀ c ∈ digits, Numeral.isDigit c = true) : splitSign digits = (false, digits) := by
  rw [splitSign]
  · rintro rest rfl
    exact absurd (hdigits '-' List.mem_cons_self) (by decide)
  · rintro rest rfl
    exact absurd (hdigits '+' List.mem_cons_self) (by decide)

/-- A whole number is written as the digits of its magnitude, behind a sign if it is negative. -/
theorem toList_toString_eq (number : Int) : (toString number).toList =
    if 0 ≤ number then Numeral.natural number.natAbs
    else '-' :: Numeral.natural number.natAbs := by
  rw [Int.toString_eq_repr, Int.repr_eq_if]
  split
  · have hmagnitude : number.toNat = number.natAbs := by omega
    rw [hmagnitude, Nat.repr_eq_ofList_toDigits, String.toList_ofList, Numeral.natural]
  · have hmagnitude : (-number).toNat = number.natAbs := by omega
    have hsign : "-".toList = ['-'] := rfl
    rw [hmagnitude, Nat.repr_eq_ofList_toDigits, String.toList_append, hsign,
      String.toList_ofList, Numeral.natural, List.singleton_append]

/-- The sign and the magnitude of a whole number are told apart. -/
theorem splitSign_toString (number : Int) : splitSign (toString number).toList =
    (decide (number < 0), Numeral.natural number.natAbs) := by
  rw [toList_toString_eq]
  split
  · next hsign =>
    rw [splitSign_of_isDigit (Numeral.isDigit_natural _), decide_eq_false (by omega)]
  · next hsign => rw [splitSign, decide_eq_true (by omega)]

/-- A whole number of 64 bits is read back from its text. -/
theorem Int64.ofText?_text (value : Int64) :
    Int64.ofText? (toString value.toInt).toList = some value := by
  have hnumber : withSign (decide (value.toInt < 0)) value.toInt.natAbs = value.toInt := by
    simp only [withSign, decide_eq_true_eq]
    split <;> omega
  rw [Int64.ofText?, splitSign_toString]
  simp only [Numeral.decimal?_natural, Option.bind_some, hnumber]
  rw [if_pos ⟨value.minValue_le_toInt, value.toInt_le⟩, Int64.ofInt_toInt]

theorem isBlank_eq_false_of_mem_toString (number : Int) :
    ∀ c ∈ (toString number).toList, Text.isBlank c = false := by
  have hdigits : ∀ c ∈ Numeral.natural number.natAbs, Text.isBlank c = false := fun c hc =>
    Numeral.isBlank_eq_false_of_isDigit (Numeral.isDigit_natural _ c hc)
  rw [toList_toString_eq]
  split
  · exact hdigits
  · exact List.forall_mem_cons.2 ⟨rfl, hdigits⟩

end AttributeFilter
