import AttributeFilter.Calendar.Instant
import AttributeFilter.Proofs.Calendar.Date

/-!
# The text of an instant

A time stamp has four digits for the year, so an instant is read back from its text as long as its
year has no more and is not negative. In other years the text begins with a sign, and nothing that
reads instants goes beyond it and the `T`. A clock has a second 60 for a leap second at the end of a
minute. Anywhere else the text of a leap second is that of the second behind it, and what is read
is that second.

## Main definitions

* `Instant.OnClock`: a leap second only at the end of a minute.
* `Instant.shown`: the instant that a clock shows with the readings of an instant.

## Main results

* `Instant.scanFraction?_fractionText`: a fraction of a second is read back.
* `Instant.shown_eq_self_iff`: for which instants that is the instant itself.
* `Instant.ofReading?_readings`: the readings of the clock at an instant, of a leap second too.
* `Instant.ofStamp?_text`: what is read back of an instant of a year with four digits.
* `Instant.ofText?_text`: in these years only.
-/

namespace AttributeFilter.Instant

variable {zone : List Char} {instant : Instant}

/-! ### Numbers -/

/-- A number in so many digits is read back if it has no more. -/
theorem scanFixed?_fixed {width number : Nat} (hnumber : number < Numeral.power 10 width)
    (rest : List Char) :
    scanFixed? width (Numeral.fixed 10 width number ++ rest) = some (number, rest) := by
  have hlength := Numeral.length_fixed 10 width number
  have hdigits : (Numeral.fixed 10 width number).all Numeral.isDigit = true :=
    List.all_eq_true.2 (Numeral.isDigit_fixed width number)
  rw [scanFixed?]
  simp only [List.take_left' hlength, List.drop_left' hlength]
  rw [if_pos ⟨hlength, hdigits⟩, Numeral.ofDecimal_fixed, Nat.mod_eq_of_lt hnumber]

/-- A fraction in at most nine digits is read as nanoseconds. -/
theorem scanFraction?_fixed {width number : Nat} (hpos : 0 < width) (hwidth : width ≤ 9)
    (hnumber : number < Numeral.power 10 width) {rest : List Char}
    (hrest : ∀ c ∈ rest.head?, Numeral.isDigit c = false) :
    scanFraction? ('.' :: Numeral.fixed 10 width number ++ rest) =
      some (number * Numeral.power 10 (9 - width), rest) := by
  have hlength := Numeral.length_fixed 10 width number
  have hne := Numeral.fixed_ne_nil hpos number
  rw [List.cons_append, scanFraction?]
  simp only [Numeral.takeWhile_isDigit (Numeral.isDigit_fixed width number) hrest]
  rw [if_neg (by simpa using hne), List.take_of_length_le (by omega), Numeral.ofDecimal_fixed,
    Nat.mod_eq_of_lt hnumber, hlength, List.drop_left' hlength]

/-- A fraction of a second is read back, whether it has three, six or nine digits or none. -/
theorem scanFraction?_fractionText {nanosecond : Nat} (h : nanosecond < 1000000000) {mark : Char}
    (hmark : Numeral.isDigit mark = false) (hpoint : mark ≠ '.') (rest : List Char) :
    scanFraction? (fractionText nanosecond ++ mark :: rest) = some (nanosecond, mark :: rest) := by
  have hrest : ∀ c ∈ (mark :: rest).head?, Numeral.isDigit c = false := by
    intro c hc
    cases hc
    exact hmark
  rw [fractionText]
  split
  · next hzero =>
    rw [List.nil_append, hzero, scanFraction?]
    intro others heq
    exact hpoint (List.cons.inj heq).1
  split
  · next hmilli =>
    have hnumber : nanosecond / 1000000 < Numeral.power 10 3 := by
      change nanosecond / 1000000 < 1000
      omega
    have hvalue : nanosecond / 1000000 * Numeral.power 10 (9 - 3) = nanosecond := by
      change nanosecond / 1000000 * 1000000 = nanosecond
      omega
    rw [scanFraction?_fixed (by decide) (by decide) hnumber hrest, hvalue]
  split
  · next hmicro =>
    have hnumber : nanosecond / 1000 < Numeral.power 10 6 := by
      change nanosecond / 1000 < 1000000
      omega
    have hvalue : nanosecond / 1000 * Numeral.power 10 (9 - 6) = nanosecond := by
      change nanosecond / 1000 * 1000 = nanosecond
      omega
    rw [scanFraction?_fixed (by decide) (by decide) hnumber hrest, hvalue]
  · have hvalue : nanosecond * Numeral.power 10 (9 - 9) = nanosecond := Nat.mul_one _
    rw [scanFraction?_fixed (by decide) (by decide) h hrest, hvalue]

/-- An offset begins with a mark that is neither a digit nor a point. -/
theorem exists_mark_of_scanOffset? {result : Int × List Char} (h : scanOffset? zone = some result) :
    ∃ mark rest, zone = mark :: rest ∧ Numeral.isDigit mark = false ∧ mark ≠ '.' := by
  cases zone with
  | nil => cases h
  | cons mark rest =>
    refine ⟨mark, rest, rfl, ?_⟩
    rw [scanOffset?] at h
    split at h
    · next hmark => rcases hmark with rfl | rfl <;> decide
    split at h
    · next hmark => rcases hmark with rfl | rfl | rfl <;> decide
    · cases h

/-! ### Readings of the clock -/

/-- A leap second stands only at the end of a minute, where a clock shows it as second 60. -/
def OnClock (instant : Instant) : Prop :=
  1000000000 ≤ instant.nanosecond → instant.second % 60 = 59

instance (instant : Instant) : Decidable instant.OnClock :=
  inferInstanceAs (Decidable (_ → _))

/-- The instant that a clock shows with the readings of an instant. A leap second elsewhere than at
the end of a minute has the readings of the second behind it. -/
def shown (instant : Instant) : Instant :=
  if h : 1000000000 ≤ instant.nanosecond ∧ instant.second % 60 ≠ 59 then
    { date := instant.date
      second := instant.second + 1
      nanosecond := instant.nanosecond - 1000000000
      isTimeOfDay := by
        obtain ⟨hsecond, hnanosecond⟩ := instant.isTimeOfDay
        rw [IsTimeOfDay, secondsPerDay] at *
        omega }
  else instant

theorem shown_eq_self_iff : instant.shown = instant ↔ instant.OnClock := by
  rw [shown, OnClock]
  split
  · next h =>
    refine iff_of_false (fun heq => ?_) fun hclock => h.2 (hclock h.1)
    have hsecond : instant.second + 1 = instant.second := congrArg second heq
    omega
  · next h =>
    exact iff_of_true rfl fun hleap => Classical.byContradiction fun hlast => h ⟨hleap, hlast⟩

/-- The readings of the clock at an instant are read as the instant that it shows. In a leap second
at the end of a minute that is second 60. -/
theorem ofReading?_readings (instant : Instant) :
    ofReading? instant.date (instant.second / 3600) (instant.second / 60 % 60)
      (instant.second % 60 + if 1000000000 ≤ instant.nanosecond then 1 else 0)
      (if 1000000000 ≤ instant.nanosecond then instant.nanosecond - 1000000000
        else instant.nanosecond) = some instant.shown := by
  obtain ⟨date, second, nanosecond, htime⟩ := instant
  have hday : second < 86400 := htime.1
  have hparts {hour minute last total rest : Nat} (h : IsTimeOfDay total rest)
      (hrange : hour < 24 ∧ minute < 60 ∧ last < 60)
      (htotal : hour * 3600 + minute * 60 + last = total) :
      ofParts? date hour minute last rest = some ⟨date, total, rest, h⟩ := by
    rw [ofParts?, if_pos hrange, htotal, onDate?, dif_pos h]
  by_cases hleap : 1000000000 ≤ nanosecond
  · by_cases hlast : second % 60 = 59
    · have hnano : nanosecond - 1000000000 + 1000000000 = nanosecond := by omega
      simp only [hleap, if_true, hlast, shown, ne_eq, not_true_eq_false, and_false, dite_false]
      rw [ofReading?, if_pos rfl, hnano]
      exact hparts htime (by omega) (by omega)
    · simp only [hleap, if_true, hlast, shown, ne_eq, not_false_eq_true, and_self, dite_true]
      rw [ofReading?, if_neg (by omega)]
      exact hparts _ (by omega) (by omega)
  · simp only [hleap, if_false, shown, false_and, dite_false]
    rw [ofReading?, if_neg (by omega)]
    exact hparts htime (by omega) (by omega)

/-! ### Instants -/

/-- The text of an instant of a year with four digits is read as the instant that a clock shows,
with any mark for the universal clock. -/
theorem ofStamp?_text (hzone : scanOffset? zone = some (0, []))
    (hyear : 0 ≤ instant.date.year ∧ instant.date.year ≤ 9999) :
    ofStamp? (instant.text zone) = some instant.shown := by
  have hreading := ofReading?_readings instant
  have hshift := instant.shown.shift?_zero
  have hyears := Date.natAbs_lt_of_era hyear
  have hmonth := instant.date.month_lt
  have hdays := instant.date.day_lt
  obtain ⟨⟨year, month, day, hexists⟩, second, nanosecond, htime⟩ := instant
  have hday : second < 86400 := htime.1
  have hnanosecond := htime.2
  have hdate : Date.ofParts? year.natAbs month day = some ⟨year, month, day, hexists⟩ := by
    have hnatAbs : (year.natAbs : Int) = year := Int.natAbs_of_nonneg hyear.1
    simp only [hnatAbs]
    exact dif_pos hexists
  have hpair {number : Nat} (h : number < 100) (rest : List Char) :
      scanFixed? 2 (Numeral.fixed 10 2 number ++ rest) = some (number, rest) :=
    scanFixed?_fixed h rest
  have hlast : second % 60 + (if 1000000000 ≤ nanosecond then 1 else 0) < 100 := by
    split <;> omega
  have hfraction : (if 1000000000 ≤ nanosecond then nanosecond - 1000000000 else nanosecond) <
      1000000000 := by
    split <;> omega
  obtain ⟨mark, rest, rfl, hmark, hpoint⟩ := exists_mark_of_scanOffset? hzone
  rw [text, Date.text, Date.yearText, if_pos hyear, ofStamp?]
  -- every field is read at the front of those behind it, and the mark ends the fraction
  simp only [List.append_assoc, List.cons_append, scanFixed?_fixed hyears, Date.scanChar?,
    hpair hmonth, hpair hdays, hpair (by omega : second / 3600 < 100),
    hpair (by omega : second / 60 % 60 < 100), hpair hlast,
    scanFraction?_fractionText hfraction hmark hpoint, hzone, hdate, hreading, hshift,
    bind, Option.bind, if_true, true_or, List.isEmpty_nil]

/-- Where the year has a sign there is no time stamp. -/
theorem ofStamp?_text_eq_none (hyear : ¬ (0 ≤ instant.date.year ∧ instant.date.year ≤ 9999)) :
    ofStamp? (instant.text zone) = none := by
  have hsign : ∀ sign : Char, Numeral.isDigit sign = false → ∀ rest,
      scanFixed? 4 (sign :: rest) = none := by
    intro sign hsign rest
    rw [scanFixed?]
    simp [hsign]
  rw [text, Date.text, Date.yearText, if_neg hyear, ofStamp?]
  simp only [List.append_assoc, List.cons_append]
  split <;> rw [hsign _ rfl] <;> rfl

/-- The reader of the universal clock does not know the `T` of a time stamp. -/
theorem ofClock?_text (zone : List Char) (instant : Instant) :
    ofClock? (instant.text zone) = none := by
  have hmark (rest : List Char) : Date.scanNumber? 2 ('T' :: rest) = none := rfl
  rw [text, ofClock?]
  simp only [List.append_assoc, List.cons_append, Date.scan?_text_append, hmark, bind, Option.bind]

/-- **Reading back.** The text of an instant is read as the instant that a clock shows, with any mark
for the universal clock, in the years that have four digits and no sign. In other years nothing is
read. -/
theorem ofText?_text (hzone : scanOffset? zone = some (0, [])) :
    ofText? (instant.text zone) =
      if 0 ≤ instant.date.year ∧ instant.date.year ≤ 9999 then some instant.shown else none := by
  rw [ofText?, ofClock?_text, Option.or_none]
  split
  · next hyear => exact ofStamp?_text hzone hyear
  · next hyear => exact ofStamp?_text_eq_none hyear

/-! ### Blanks -/

theorem isBlank_eq_false_of_mem_fractionText (nanosecond : Nat) :
    ∀ c ∈ fractionText nanosecond, Text.isBlank c = false := by
  have hpoint (width number : Nat) :
      ∀ c ∈ '.' :: Numeral.fixed 10 width number, Text.isBlank c = false :=
    List.forall_mem_cons.2 ⟨rfl, Numeral.isBlank_eq_false_of_mem_fixed width number⟩
  rw [fractionText]
  split_ifs
  · exact fun c hc => absurd hc List.not_mem_nil
  · exact hpoint 3 _
  · exact hpoint 6 _
  · exact hpoint 9 _

/-- There are no blanks in the text of an instant, unless the mark of the clock has some. -/
theorem isBlank_eq_false_of_mem_text (hzone : ∀ c ∈ zone, Text.isBlank c = false)
    (instant : Instant) : ∀ c ∈ instant.text zone, Text.isBlank c = false := by
  have hfixed := Numeral.isBlank_eq_false_of_mem_fixed 2
  simp only [text, List.forall_mem_append, List.forall_mem_cons]
  exact ⟨⟨⟨⟨⟨Date.isBlank_eq_false_of_mem_text instant.date, rfl, hfixed _⟩, rfl, hfixed _⟩, rfl,
    hfixed _⟩, isBlank_eq_false_of_mem_fractionText _⟩, hzone⟩

end AttributeFilter.Instant
