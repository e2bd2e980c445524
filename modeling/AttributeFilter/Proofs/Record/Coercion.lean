import AttributeFilter.Proofs.Calendar.Readers
import AttributeFilter.Proofs.Number.Coarse
import AttributeFilter.Proofs.Record.Lookup
import AttributeFilter.Query.Predicate

/-!
# One text for several values

A request text is read as a value of the kind that is stored. A text that stands for an instant
stands for one date as well, the date of the instant by the universal clock, in whatever offset it is
written. A text that stands for a whole number stands for no other one, as long as it is written as
a whole number of 64 bits or is read as a number that is not too great. From `2 ^ 53` on, a text of
any other form is rounded, and the stored number is rounded with it: then two records with different
whole numbers may answer to the same text.

## Main definitions

* `Value.ReadsCoarse`: a text that stands for several whole numbers.
* `TellsIntegersApart`: a text that selects records by one whole number at most.

## Main results

* `Value.matchesText_date_of_instant`: the date that the text of an instant stands for.
* `Value.matchesText_integer_iff_reads`: the whole numbers that a text stands for.
* `tellsIntegersApart_iff`: which texts tell whole numbers apart.
-/

namespace AttributeFilter

namespace Value

variable {raw : String} {value : Int64}

/-! ### Dates -/

/-- **The date of an instant.** A text that stands for an instant stands for its date by the universal
clock, and for no other date. -/
theorem matchesText_date_of_instant {moment : Instant} (h : (instant moment).matchesText raw = true)
    (day : Date) : (date day).matchesText raw = true ↔ day = moment.date := by
  rw [matchesText, matchesTrimmed, beq_iff_eq] at h
  rw [matchesText, matchesTrimmed, beq_iff_eq, Date.ofTextOrInstant?_eq_some_iff, h]
  simp [eq_comm]

/-- On the evening of the leap day an hour behind the universal clock, the next day has begun. -/
theorem matchesText_date_of_leap_day_evening :
    let moment : Instant := ⟨⟨2024, 3, 1, by decide⟩, 1800, 0, by decide⟩
    (instant moment).matchesText "2024-02-29T23:30:00-01:00" = true ∧
      ∀ day, (date day).matchesText "2024-02-29T23:30:00-01:00" = true ↔
        day = ⟨2024, 3, 1, by decide⟩ := by
  intro moment
  have h : (instant moment).matchesText "2024-02-29T23:30:00-01:00" = true := by decide +kernel
  exact ⟨h, matchesText_date_of_instant h⟩

/-! ### Whole numbers -/

/-- The text is not a whole number of 64 bits, and it is read as a number that several of these are
rounded to. -/
def ReadsCoarse (raw : String) : Prop :=
  Int64.ofText? (Text.trim Text.isBlank raw.toList) = none ∧
    ∃ number, Binary64.ofText? (Text.trim Text.isBlank raw.toList) = some number ∧ number.Coarse

/-- A text stands for the whole number that it is, or if it is none, for those that are rounded to
the number that it is read as. -/
theorem matchesText_integer_iff_reads : (integer value).matchesText raw = true ↔
    Int64.ofText? (Text.trim Text.isBlank raw.toList) = some value ∨
      Int64.ofText? (Text.trim Text.isBlank raw.toList) = none ∧
        ∃ number, Binary64.ofText? (Text.trim Text.isBlank raw.toList) = some number ∧
          number.equals (.ofInt value.toInt) = true := by
  rw [matchesText, matchesTrimmed, integerMatches]
  cases Int64.ofText? (Text.trim Text.isBlank raw.toList) with
  | some whole => simp
  | none => cases Binary64.ofText? (Text.trim Text.isBlank raw.toList) <;> simp

/-- A text stands for several whole numbers exactly if it is read coarsely. -/
theorem readsCoarse_iff : ReadsCoarse raw ↔
    ∃ a b, a ≠ b ∧ (integer a).matchesText raw = true ∧ (integer b).matchesText raw = true := by
  simp only [matchesText_integer_iff_reads]
  constructor
  · rintro ⟨hnone, number, hread, hcoarse⟩
    obtain ⟨a, b, hne, ha, hb⟩ :=
      (Binary64.coarse_iff (Binary64.isDouble_of_ofText? hread)).1 hcoarse
    exact ⟨a, b, hne, .inr ⟨hnone, number, hread, ha⟩, .inr ⟨hnone, number, hread, hb⟩⟩
  · rintro ⟨a, b, hne, ha | ⟨hnone, number, hread, ha⟩, hb | ⟨hnone', number', hread', hb⟩⟩
    · exact absurd (Option.some.inj (ha.symm.trans hb)) hne
    · cases ha.symm.trans hnone'
    · cases hb.symm.trans hnone
    · obtain rfl := Option.some.inj (hread.symm.trans hread')
      exact ⟨hnone, number, hread,
        (Binary64.coarse_iff (Binary64.isDouble_of_ofText? hread)).2 ⟨a, b, hne, ha, hb⟩⟩

end Value

/-- The text stands for one whole number of 64 bits at most. So the records that a condition of
equality with it selects by one whole number that they reach, and those that are found by a whole
number that identifies them, all have the same one. -/
structure TellsIntegersApart (raw : String) : Prop where
  values : ∀ a b, (Value.integer a).matchesText raw = true →
    (Value.integer b).matchesText raw = true → a = b
  conditions : ∀ (store : Store) (registry : Registry) (target : Target) (record other : Record) a b,
    store.valuesAt record target = [.integer a] → store.valuesAt other target = [.integer b] →
      (Predicate.equals target (.text raw)).holds store registry record = true →
        (Predicate.equals target (.text raw)).holds store registry other = true → a = b
  lookups : ∀ (first second : Store) (family : Family) (identifier : Attribute)
    (record other : Record) a b, family.designated? .identifier = some identifier →
      record.value? identifier.code = some (.integer a) →
        other.value? identifier.code = some (.integer b) →
          first.findByIdentifierValue family raw = some record →
            second.findByIdentifierValue family raw = some other → a = b

namespace Store

variable {store : Store} {registry : Registry} {target : Target} {record : Record} {raw : String}
  {value : Int64}

/-- The only whole number that a record reaches is tested by itself: it refers to nothing. -/
theorem holds_equals_iff_of_valuesAt (h : store.valuesAt record target = [.integer value]) :
    (Predicate.equals target (.text raw)).holds store registry record = true ↔
      (Value.integer value).matchesText raw = true := by
  rw [Predicate.holds, Test.holdsAt, h]
  simp [Test.passes, Comparand.isEqual, equalsText, Value.targets]

/-- A record that is found by its identifier has a value there that the text stands for. -/
theorem matchesText_of_findByIdentifierValue {family : Family} {identifier : Attribute} {held : Value}
    (hidentifier : family.designated? .identifier = some identifier)
    (hheld : record.value? identifier.code = some held)
    (h : store.findByIdentifierValue family raw = some record) : held.matchesText raw = true := by
  obtain ⟨-, identifier', held', hidentifier', hheld', hmatches⟩ :=
    (findByIdentifierValue_eq_some_iff.1 h).1
  obtain rfl := Option.some.inj (hidentifier.symm.trans hidentifier')
  obtain rfl := Option.some.inj (hheld.symm.trans hheld')
  exact hmatches

end Store

/-- **Whole numbers told apart.** A text tells whole numbers apart unless it is read coarsely: it has
another form than a whole number of 64 bits, and is read as a multiple of four from `2 ^ 53` to
`2 ^ 63`, of either sign. -/
theorem tellsIntegersApart_iff (raw : String) : TellsIntegersApart raw ↔ ¬ Value.ReadsCoarse raw := by
  rw [Value.readsCoarse_iff]
  constructor
  · rintro h ⟨a, b, hne, ha, hb⟩
    exact hne (h.values a b ha hb)
  · intro h
    have hvalues : ∀ a b, (Value.integer a).matchesText raw = true →
        (Value.integer b).matchesText raw = true → a = b := by
      intro a b ha hb
      by_contra hne
      exact h ⟨a, b, hne, ha, hb⟩
    refine ⟨hvalues, ?_, ?_⟩
    · intro store registry target record other a b hrecord hother hholds hholds'
      exact hvalues a b ((Store.holds_equals_iff_of_valuesAt hrecord).1 hholds)
        ((Store.holds_equals_iff_of_valuesAt hother).1 hholds')
    · intro first second family identifier record other a b hidentifier hrecord hother hfound hfound'
      exact hvalues a b (Store.matchesText_of_findByIdentifierValue hidentifier hrecord hfound)
        (Store.matchesText_of_findByIdentifierValue hidentifier hother hfound')

/-- The least whole number that is no double, written with a fraction, also stands for the one below
it. -/
theorem not_tellsIntegersApart_fraction :
    (Value.integer 9007199254740992).matchesText "9007199254740993.0" = true ∧
      (Value.integer 9007199254740993).matchesText "9007199254740993.0" = true ∧
      ¬ TellsIntegersApart "9007199254740993.0" := by
  have hbelow : (Value.integer 9007199254740992).matchesText "9007199254740993.0" = true := by
    decide +kernel
  have hown : (Value.integer 9007199254740993).matchesText "9007199254740993.0" = true := by
    decide +kernel
  exact ⟨hbelow, hown, fun h => absurd (h.values _ _ hbelow hown) (by decide)⟩

end AttributeFilter
