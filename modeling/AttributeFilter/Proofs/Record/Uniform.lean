import AttributeFilter.Proofs.Record.Comparison
import Mathlib.Data.String.Basic

/-!
# Values of one variant

Whole numbers, truth values, texts, dates, instants and single references are compared within their
variant as they are. Which of two such values comes first is said here without the comparison of
stored values: the smaller number, falsehood, the text that is first in the order of characters, the
earlier day, the earlier point in time, the identifier with the smaller number. Decimals are left
out, since integers are rounded to be compared with them; so are lists of references.

## Main definitions

* `Value.variant?`: the variant of a value that is compared as it is.
* `Value.Uniform`: values of one such variant.
* `Value.Below`: a value comes before another one of its variant.

## Main results

* `Value.compare?_eq_lt_iff`: comparing values of one variant says which one comes first.
* `Value.Uniform.sortable`: nothing keeps values of one variant from being sorted.
-/

namespace AttributeFilter

/-! ### Days and points in time -/

namespace Date

/-- A day comes before another one. -/
def Earlier (a b : Date) : Prop :=
  a.year < b.year ∨ a.year = b.year ∧ (a.month < b.month ∨ a.month = b.month ∧ a.day < b.day)

theorem compare_eq_lt_iff {a b : Date} : a.compare b = .lt ↔ a.Earlier b := by
  simp only [compare, Earlier, Ordering.then_eq_lt, compare_lt_iff_lt, compare_eq_iff_eq]

theorem compare_eq_eq_iff {a b : Date} : a.compare b = .eq ↔ a = b := by
  simp only [compare, Ordering.then_eq_eq, compare_eq_iff_eq]
  constructor
  · rintro ⟨hyear, hmonth, hday⟩
    cases a
    cases b
    cases hyear
    cases hmonth
    cases hday
    rfl
  · rintro rfl
    exact ⟨rfl, rfl, rfl⟩

end Date

namespace Instant

/-- A point in time comes before another one. -/
def Earlier (a b : Instant) : Prop :=
  a.date.Earlier b.date ∨ a.date = b.date ∧
    (a.second < b.second ∨ a.second = b.second ∧ a.nanosecond < b.nanosecond)

theorem compare_eq_lt_iff {a b : Instant} : a.compare b = .lt ↔ a.Earlier b := by
  simp only [compare, Earlier, Ordering.then_eq_lt, Date.compare_eq_lt_iff, Date.compare_eq_eq_iff,
    compare_lt_iff_lt, compare_eq_iff_eq]

end Instant

namespace Value

/-! ### Variants -/

/-- The variant of a value that is compared as it is; decimals and lists of references have none. -/
def variant? : Value → Option Kind
  | decimal _ => none
  | value => value.kind?

def Uniform (values : List Value) : Prop :=
  ∃ variant, ∀ value ∈ values, value.variant? = some variant

/-- A value comes before another one of its variant. -/
inductive Below : Value → Value → Prop
  | integer {m n : Int64} (h : m.toInt < n.toInt) : Below (integer m) (integer n)
  | boolean : Below (boolean false) (boolean true)
  | text {s t : String} (h : s.toList < t.toList) : Below (text s) (text t)
  | date {d e : Date} (h : d.Earlier e) : Below (date d) (date e)
  | instant {i j : Instant} (h : i.Earlier j) : Below (instant i) (instant j)
  | reference {a b : Uuid} (h : a.bits.toNat < b.bits.toNat) : Below (reference a) (reference b)

variable {a b : Value} {values others : List Value}

theorem kind?_of_variant? {variant : Kind} (h : a.variant? = some variant) :
    a.kind? = some variant := by
  cases a with
  | decimal x => cases h
  | _ => exact h

theorem Uniform.subset (h : Uniform values) (hsub : others ⊆ values) : Uniform others :=
  h.imp fun _ hvariant value hvalue => hvariant value (hsub hvalue)

/-- Comparing values of one variant says which one comes first. -/
theorem compare?_eq_lt_iff {variant : Kind} (ha : a.variant? = some variant)
    (hb : b.variant? = some variant) : a.compare? b = some .lt ↔ a.Below b := by
  cases a <;> cases ha <;> cases b <;> cases hb
  case integer.refl.integer.refl m n =>
    rw [compare?, Option.some.injEq, compare_lt_iff_lt]
    refine ⟨.integer, fun h => ?_⟩
    cases h with
    | integer h => exact h
  case boolean.refl.boolean.refl s t =>
    rw [compare?, Option.some.injEq]
    constructor
    · intro h
      cases s <;> cases t <;> cases h
      exact .boolean
    · intro h
      cases h
      rfl
  case text.refl.text.refl s t =>
    rw [compare?, Option.some.injEq, compare_lt_iff_lt, String.lt_iff_toList_lt]
    refine ⟨.text, fun h => ?_⟩
    cases h with
    | text h => exact h
  case date.refl.date.refl d e =>
    rw [compare?, Option.some.injEq, Date.compare_eq_lt_iff]
    refine ⟨.date, fun h => ?_⟩
    cases h with
    | date h => exact h
  case instant.refl.instant.refl i j =>
    rw [compare?, Option.some.injEq, Instant.compare_eq_lt_iff]
    refine ⟨.instant, fun h => ?_⟩
    cases h with
    | instant h => exact h
  case reference.refl.reference.refl p q =>
    rw [compare?, Option.some.injEq, Uuid.compare, compare_lt_iff_lt]
    refine ⟨.reference, fun h => ?_⟩
    cases h with
    | reference h => exact h

/-- Nothing keeps values of one variant from being sorted. -/
theorem Uniform.sortable (h : Uniform values) : Sortable values := by
  obtain ⟨variant, hvariant⟩ := h
  refine .inr ⟨⟨variant, fun value hvalue => kind?_of_variant? (hvariant value hvalue)⟩, ?_⟩
  intro x m n hx
  cases hvariant _ hx

end Value

end AttributeFilter
