import AttributeFilter.Calendar.Instant
import AttributeFilter.Proofs.Calendar.Date

/-!
# Texts of dates and texts of instants

A text that is an instant begins with a date, and goes on behind it. The reader of dates takes the
same date off its front, whichever of the two forms of an instant it is, and refuses the text for
what is left. So no text is both a date and an instant, and where either is read, it is known which.

## Main results

* `Date.scanNumber?_of_scanFixed?`, `Date.scanYear?_of_scanFixed?`: digits of a time stamp are read
  in dates as well.
* `Instant.exists_scan?_of_ofText?`: an instant has a date at its front, and not only that.
* `Date.ofText?_eq_none_of_instant`: a text that is an instant is no date.
* `Date.ofTextOrInstant?_eq_some_iff`: what is read as a date.
-/

namespace AttributeFilter

namespace Date

variable {text rest : List Char} {width number : Nat}

/-- Digits that are read in a fixed number are at the front of the text. -/
theorem exists_digits_of_scanFixed? (h : Instant.scanFixed? width text = some (number, rest)) :
    ∃ digits, text = digits ++ rest ∧ digits.length = width ∧
      (∀ c ∈ digits, Numeral.isDigit c = true) ∧ Numeral.ofDecimal digits = number := by
  rw [Instant.scanFixed?] at h
  split at h
  · next hdigits =>
    obtain ⟨rfl, rfl⟩ := Prod.mk.inj (Option.some.inj h)
    exact ⟨text.take width, (List.take_append_drop width text).symm, hdigits.1,
      List.all_eq_true.1 hdigits.2, rfl⟩
  · cases h

/-- So many digits are read in a date as well, where no more may be read. -/
theorem scanDigits?_of_scanFixed? (hwidth : 0 < width)
    (h : Instant.scanFixed? width text = some (number, rest)) :
    scanDigits? width text = some (number, rest) ∧
      Text.trimStart Text.isBlank text = text := by
  obtain ⟨digits, rfl, hlength, hdigits, rfl⟩ := exists_digits_of_scanFixed? h
  have hne : digits ≠ [] := List.length_pos_iff.1 (hlength.symm ▸ hwidth)
  exact ⟨scanDigits?_append hdigits hne (.inl hlength), trimStart_append_of_isDigit hdigits hne⟩

theorem scanNumber?_of_scanFixed? (hwidth : 0 < width)
    (h : Instant.scanFixed? width text = some (number, rest)) :
    scanNumber? width text = some (number, rest) := by
  obtain ⟨hscan, htrim⟩ := scanDigits?_of_scanFixed? hwidth h
  rw [scanNumber?, htrim, hscan]

/-- The year of a time stamp is read in a date as well: it has no sign. -/
theorem scanYear?_of_scanFixed? (h : Instant.scanFixed? 4 text = some (number, rest)) :
    scanYear? text = some ((number : Int), rest) := by
  obtain ⟨hscan, -⟩ := scanDigits?_of_scanFixed? (by decide) h
  obtain ⟨digits, rfl, hlength, hdigits, -⟩ := exists_digits_of_scanFixed? h
  have hne : digits ≠ [] := List.length_pos_iff.1 (hlength.symm ▸ by decide)
  rw [scanYear?_of_isDigit hdigits hne, hscan]
  rfl

end Date

namespace Instant

variable {text : List Char} {moment : Instant}

/-- A time stamp has a date at its front, and a separator behind it. -/
theorem exists_scan?_of_ofStamp? (h : ofStamp? text = some moment) :
    ∃ date rest, Date.scan? text = some (date, rest) ∧ rest ≠ [] := by
  rw [ofStamp?] at h
  obtain ⟨⟨year, behindYear⟩, hyear, h⟩ := Option.bind_eq_some_iff.1 h
  obtain ⟨atMonth, hhyphen, h⟩ := Option.bind_eq_some_iff.1 h
  obtain ⟨⟨month, behindMonth⟩, hmonth, h⟩ := Option.bind_eq_some_iff.1 h
  obtain ⟨atDay, hhyphen', h⟩ := Option.bind_eq_some_iff.1 h
  obtain ⟨⟨day, behindDay⟩, hday, h⟩ := Option.bind_eq_some_iff.1 h
  dsimp only at h
  split at h
  · next separator rest =>
    split at h
    · simp only [bind, Option.bind_some, Option.bind_eq_some_iff, Option.ite_none_right_eq_some] at h
      -- hour, minute, second, fraction and offset do not matter, only that there is such a day
      obtain ⟨-, -, -, -, -, -, -, -, -, -, -, -, -, -, -, date, hdate, -⟩ := h
      refine ⟨date, separator :: rest, ?_, List.cons_ne_nil _ _⟩
      simp only [Date.scan?, bind, pure, Date.scanYear?_of_scanFixed? hyear, hhyphen,
        Date.scanNumber?_of_scanFixed? (by decide) hmonth, hhyphen',
        Date.scanNumber?_of_scanFixed? (by decide) hday, hdate, Option.bind_some]
    · cases h
  · cases h

/-- A reading of the universal clock has a date at its front, and an hour behind it. -/
theorem exists_scan?_of_ofClock? (h : ofClock? text = some moment) :
    ∃ date rest, Date.scan? text = some (date, rest) ∧ rest ≠ [] := by
  rw [ofClock?] at h
  obtain ⟨⟨date, rest⟩, hdate, h⟩ := Option.bind_eq_some_iff.1 h
  obtain ⟨_, hhour, -⟩ := Option.bind_eq_some_iff.1 h
  refine ⟨date, rest, hdate, ?_⟩
  rintro rfl
  cases hhour

/-- An instant of either form has a date at its front, and not only that. -/
theorem exists_scan?_of_ofText? (h : ofText? text = some moment) :
    ∃ date rest, Date.scan? text = some (date, rest) ∧ rest ≠ [] := by
  rw [ofText?, Option.or_eq_some_iff] at h
  rcases h with hstamp | ⟨-, hclock⟩
  · exact exists_scan?_of_ofStamp? hstamp
  · exact exists_scan?_of_ofClock? hclock

end Instant

namespace Date

variable {text : List Char} {day : Date}

theorem ofText?_eq_none_of_instant {moment : Instant} (h : Instant.ofText? text = some moment) :
    ofText? text = none := by
  obtain ⟨date, rest, hscan, hrest⟩ := Instant.exists_scan?_of_ofText? h
  rw [ofText?, hscan]
  split
  · next heq =>
    cases heq
    exact absurd rfl hrest
  · rfl

/-- What is read as a date is a date by itself or the date of an instant, and the text alone tells
which. -/
theorem ofTextOrInstant?_eq_some_iff : ofTextOrInstant? text = some day ↔
    ofText? text = some day ∧ Instant.ofText? text = none ∨
      ∃ moment, Instant.ofText? text = some moment ∧ moment.date = day := by
  rw [ofTextOrInstant?]
  cases hinstant : Instant.ofText? text with
  | none => simp
  | some moment => simp [ofText?_eq_none_of_instant hinstant]

end Date

end AttributeFilter
