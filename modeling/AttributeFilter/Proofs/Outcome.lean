import AttributeFilter.Error
import Mathlib.Data.List.Forall2

/-!
# Computations that may fail

A computation that goes on with the result of another one succeeds only if both do. This opens the
look-ups that are written one after the other, without unfolding them.

## Main results

* `Outcome.bind_eq_ok_iff`, `Outcome.bind_eq_error_iff`: success and failure of one computation
  after another.
* `Outcome.mapM_eq_ok_iff`: success of one computation for each element of a list.
* `Outcome.mapM_eq_error_iff`: it fails as the first one that fails.
-/

namespace AttributeFilter.Outcome

variable {α β : Type}

/-- One computation after another succeeds if the first one does, and the second one on its
result. -/
theorem bind_eq_ok_iff {first : Except Error α} {next : α → Except Error β} {result : β} :
    (first >>= next) = .ok result ↔ ∃ value, first = .ok value ∧ next value = .ok result := by
  cases first with
  | error error => simp [bind, Except.bind]
  | ok value => simp [bind, Except.bind]

/-- One computation after another fails if the first one does, or the second one on its result. -/
theorem bind_eq_error_iff {first : Except Error α} {next : α → Except Error β} {error : Error} :
    (first >>= next) = .error error ↔
      first = .error error ∨ ∃ value, first = .ok value ∧ next value = .error error := by
  cases first with
  | error other => simp [bind, Except.bind]
  | ok value => simp [bind, Except.bind]

theorem map_eq_ok_iff {first : Except Error α} {change : α → β} {result : β} :
    first.map change = .ok result ↔ ∃ value, first = .ok value ∧ change value = result := by
  cases first with
  | error error => simp [Except.map]
  | ok value => simp [Except.map]

theorem toOption_eq_some_iff {outcome : Except Error α} {result : α} :
    outcome.toOption = some result ↔ outcome = .ok result := by
  cases outcome <;> simp [Except.toOption]

theorem mapM_eq_ok_iff {computation : α → Except Error β} {elements : List α}
    {results : List β} :
    elements.mapM computation = .ok results ↔
      List.Forall₂ (fun element result => computation element = .ok result) elements results := by
  induction elements generalizing results with
  | nil =>
    rw [List.mapM_nil, List.forall₂_nil_left_iff]
    exact ⟨fun h => (Except.ok.inj h).symm, fun h => h ▸ rfl⟩
  | cons element rest ih =>
    rw [List.mapM_cons, bind_eq_ok_iff, List.forall₂_cons_left_iff]
    constructor
    · rintro ⟨result, hresult, h⟩
      obtain ⟨others, hothers, h⟩ := bind_eq_ok_iff.1 h
      cases h
      exact ⟨result, others, hresult, ih.1 hothers, rfl⟩
    · rintro ⟨result, others, hresult, hothers, rfl⟩
      exact ⟨result, hresult, bind_eq_ok_iff.2 ⟨others, ih.2 hothers, rfl⟩⟩

theorem exists_mapM_eq_ok_iff {computation : α → Except Error β} {elements : List α} :
    (∃ results, elements.mapM computation = .ok results) ↔
      ∀ element ∈ elements, ∃ result, computation element = .ok result := by
  simp only [mapM_eq_ok_iff]
  induction elements with
  | nil => simp
  | cons element rest ih =>
    simp only [List.forall₂_cons_left_iff, List.forall_mem_cons, ← ih]
    constructor
    · rintro ⟨_, result, results, hresult, hresults, -⟩
      exact ⟨⟨result, hresult⟩, results, hresults⟩
    · rintro ⟨⟨result, hresult⟩, results, hresults⟩
      exact ⟨_, result, results, hresult, hresults, rfl⟩

/-- One computation for each element of a list fails as the first one that fails. -/
theorem mapM_eq_error_iff {computation : α → Except Error β} {elements : List α} {error : Error} :
    elements.mapM computation = .error error ↔
      ∃ before element after, elements = before ++ element :: after ∧
        computation element = .error error ∧
        ∀ earlier ∈ before, ∃ result, computation earlier = .ok result := by
  induction elements with
  | nil => simp [pure, Except.pure]
  | cons element rest ih =>
    rw [List.mapM_cons, bind_eq_error_iff]
    constructor
    · rintro (h | ⟨result, hresult, h⟩)
      · exact ⟨[], element, rest, rfl, h, fun _ h => absurd h List.not_mem_nil⟩
      rcases bind_eq_error_iff.1 h with h | ⟨others, -, h⟩
      · obtain ⟨before, failing, after, rfl, hfailing, hbefore⟩ := ih.1 h
        exact ⟨element :: before, failing, after, rfl, hfailing,
          List.forall_mem_cons.2 ⟨⟨result, hresult⟩, hbefore⟩⟩
      · cases h
    · rintro ⟨before, failing, after, hsplit, hfailing, hbefore⟩
      cases before with
      | nil =>
        cases hsplit
        exact .inl hfailing
      | cons first before =>
        cases hsplit
        obtain ⟨⟨result, hresult⟩, hbefore⟩ := List.forall_mem_cons.1 hbefore
        exact .inr ⟨result, hresult, bind_eq_error_iff.2
          (.inl (ih.2 ⟨before, failing, after, rfl, hfailing, hbefore⟩))⟩

end AttributeFilter.Outcome
