import AttributeFilter.Calendar.Date
import AttributeFilter.Proofs.Text.Numeral

/-!
# The text of a date

A date is read back from its text, whatever follows it: a year of the four-digit era has exactly four
digits, and any other year has a sign in front and as many digits as it needs, up to the hyphen.

## Main results

* `Date.scanDigits?_append`: digits at the front of a text are read as a number.
* `Date.scanYear?_append`: a year is read back.
* `Date.scan?_text_append`, `Date.ofText?_text`: a date is read back, at the front of a text or as
  all of it.
* `Date.isBlank_eq_false_of_mem_text`: there are no blanks in the text of a date.
-/

namespace AttributeFilter.Date

open Calendar

variable {digits rest : List Char} {width : Nat}

/-! ### Numbers -/

/-- Digits at the front of a text are read as a number, if they are all that may be read or if
something else follows them. -/
theorem scanDigits?_append (hdigits : ∀ c ∈ digits, Numeral.isDigit c = true) (hne : digits ≠ [])
    (hend : digits.length = width ∨
      digits.length ≤ width ∧ ∀ c ∈ rest.head?, Numeral.isDigit c = false) :
    scanDigits? width (digits ++ rest) = some (Numeral.ofDecimal digits, rest) := by
  have hread : ((digits ++ rest).take width).takeWhile Numeral.isDigit = digits := by
    rcases hend with rfl | ⟨hwidth, hrest⟩
    · rw [List.take_left, List.takeWhile_eq_self_iff]
      exact hdigits
    · rw [List.take_append, List.take_of_length_le hwidth]
      refine Numeral.takeWhile_isDigit hdigits fun c hc => hrest c ?_
      rw [List.head?_take] at hc
      split at hc
      · cases hc
      · exact hc
  rw [scanDigits?]
  simp only [hread]
  rw [if_neg (by simpa using hne), List.drop_left]

theorem trimStart_append_of_isDigit (hdigits : ∀ c ∈ digits, Numeral.isDigit c = true)
    (hne : digits ≠ []) : Text.trimStart Text.isBlank (digits ++ rest) = digits ++ rest := by
  obtain ⟨c, others, rfl⟩ := List.exists_cons_of_ne_nil hne
  have hblank := Numeral.isBlank_eq_false_of_isDigit (hdigits c List.mem_cons_self)
  exact List.dropWhile_cons_of_neg (by simp [hblank])

/-- A number in so many digits is read back if it has no more. -/
theorem scanNumber?_fixed (hwidth : 0 < width) {number : Nat}
    (hnumber : number < Numeral.power 10 width) (rest : List Char) :
    scanNumber? width (Numeral.fixed 10 width number ++ rest) = some (number, rest) := by
  have hlength := Numeral.length_fixed 10 width number
  have hne := Numeral.fixed_ne_nil hwidth number
  rw [scanNumber?, trimStart_append_of_isDigit (Numeral.isDigit_fixed width number) hne,
    scanDigits?_append (Numeral.isDigit_fixed width number) hne (.inl hlength),
    Numeral.ofDecimal_fixed, Nat.mod_eq_of_lt hnumber]

/-! ### Years -/

/-- Where digits come first there is no sign. -/
theorem scanYear?_of_isDigit (hdigits : ∀ c ∈ digits, Numeral.isDigit c = true)
    (hne : digits ≠ []) : scanYear? (digits ++ rest) =
      (scanDigits? 4 (digits ++ rest)).map fun (year, rest) => ((year : Int), rest) := by
  rw [scanYear?, trimStart_append_of_isDigit hdigits hne]
  obtain ⟨c, others, rfl⟩ := List.exists_cons_of_ne_nil hne
  have hc := hdigits c List.mem_cons_self
  rw [List.cons_append]
  split
  · next heq =>
    cases heq
    exact absurd hc (by decide)
  · next heq =>
    cases heq
    exact absurd hc (by decide)
  · rfl

theorem scanYear?_minus (rest : List Char) : scanYear? ('-' :: rest) =
    (scanDigits? rest.length rest).map fun (year, rest) => (-(year : Int), rest) :=
  rfl

theorem scanYear?_plus (rest : List Char) : scanYear? ('+' :: rest) =
    (scanDigits? rest.length rest).map fun (year, rest) => ((year : Int), rest) :=
  rfl

/-- A year of the four-digit era has no more digits. -/
theorem natAbs_lt_of_era {year : Int} (hera : 0 ≤ year ∧ year ≤ 9999) :
    year.natAbs < Numeral.power 10 4 := by
  change year.natAbs < 10000
  omega

/-- A year is read back if a hyphen follows it. -/
theorem scanYear?_append (year : Int) (rest : List Char) :
    scanYear? (yearText year ++ '-' :: rest) = some (year, '-' :: rest) := by
  have hhyphen : ∀ c ∈ ('-' :: rest).head?, Numeral.isDigit c = false := by
    intro c hc
    cases hc
    rfl
  have hsigned : scanDigits? (Numeral.padded 4 year.natAbs ++ '-' :: rest).length
      (Numeral.padded 4 year.natAbs ++ '-' :: rest) = some (year.natAbs, '-' :: rest) := by
    rw [scanDigits?_append (Numeral.isDigit_padded 4 year.natAbs)
      (Numeral.padded_ne_nil 4 year.natAbs) (.inr ⟨by simp, hhyphen⟩), Numeral.ofDecimal_padded]
  rw [yearText]
  split
  · next hera =>
    have hyear : (year.natAbs : Int) = year := Int.natAbs_of_nonneg hera.1
    have hdigits := Numeral.isDigit_fixed 4 year.natAbs
    have hne := Numeral.fixed_ne_nil (by decide : 0 < 4) year.natAbs
    rw [scanYear?_of_isDigit hdigits hne, scanDigits?_append hdigits hne
      (.inl (Numeral.length_fixed 10 4 year.natAbs)), Numeral.ofDecimal_fixed,
      Nat.mod_eq_of_lt (natAbs_lt_of_era hera)]
    simp only [Option.map_some, hyear]
  · next hera =>
    rw [List.cons_append]
    split
    · have hyear : -(year.natAbs : Int) = year := by omega
      rw [scanYear?_minus, hsigned]
      simp only [Option.map_some, hyear]
    · have hyear : (year.natAbs : Int) = year := by omega
      rw [scanYear?_plus, hsigned]
      simp only [Option.map_some, hyear]

/-! ### Dates -/

theorem monthLength_le (year : Int) (month : Nat) : monthLength year month ≤ 31 := by
  rw [monthLength]
  split_ifs <;> decide

theorem month_lt (date : Date) : date.month < Numeral.power 10 2 := by
  change date.month < 100
  have := date.exists_day.2.2.2.1
  omega

theorem day_lt (date : Date) : date.day < Numeral.power 10 2 := by
  change date.day < 100
  have := date.exists_day.2.2.2.2.2.trans (monthLength_le date.year date.month)
  omega

theorem scan?_text_append (date : Date) (rest : List Char) :
    scan? (date.text ++ rest) = some (date, rest) := by
  have hmonth := date.month_lt
  have hday := date.day_lt
  obtain ⟨year, month, day, hexists⟩ := date
  rw [text, scan?]
  simp only [List.append_assoc, List.cons_append, scanYear?_append, scanChar?,
    scanNumber?_fixed (by decide : 0 < 2) hmonth, scanNumber?_fixed (by decide : 0 < 2) hday,
    ofParts?, hexists, bind, Option.bind, if_true, dif_pos]
  rfl

theorem ofText?_text (date : Date) : ofText? date.text = some date := by
  have hscan := scan?_text_append date []
  rw [List.append_nil] at hscan
  rw [ofText?, hscan]

/-! ### Blanks -/

theorem isBlank_eq_false_of_mem_yearText (year : Int) :
    ∀ c ∈ yearText year, Text.isBlank c = false := by
  rw [yearText]
  split
  · exact Numeral.isBlank_eq_false_of_mem_fixed 4 _
  · refine List.forall_mem_cons.2 ⟨?_, fun c hc =>
      Numeral.isBlank_eq_false_of_isDigit (Numeral.isDigit_padded 4 _ c hc)⟩
    split <;> rfl

theorem isBlank_eq_false_of_mem_text (date : Date) : ∀ c ∈ date.text, Text.isBlank c = false := by
  have hfixed := Numeral.isBlank_eq_false_of_mem_fixed 2
  simp only [text, List.forall_mem_append, List.forall_mem_cons]
  exact ⟨⟨isBlank_eq_false_of_mem_yearText date.year, rfl, hfixed _⟩, rfl, hfixed _⟩

end AttributeFilter.Date
