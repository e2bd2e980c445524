import AttributeFilter.Proofs.Schema.Resolution

/-!
# Errors of look-ups

Looking up the family of a resource, or the attribute of a property, fails in few ways. Only the
attribute can be unknown because of what the client asked for.

## Main definitions

* `Error.IsLookup`: the errors of look-ups.

## Main results

* `Registry.resolve_eq_error`: looking up the family of a resource is no error of the client.
* `Registry.isLookup_of_path`: the errors of looking up a property.
-/

namespace AttributeFilter

/-- The errors that come of looking up a family, or the attribute of a property. -/
def Error.IsLookup : Error → Prop
  | unresolvedFamily _ | ambiguousFamily _ _ | unknownFamily _ | familyMismatch _ _ _
  | unknownAttribute _ _ | unexpectedSchema _ => True
  | _ => False

namespace Registry

variable {registry : Registry} {family : Family} {error : Error}

/-! ### Families -/

/-- The family that governs a resource is not found because there is none, or several. -/
theorem governing_eq_error {resource : String} (h : registry.governing resource = .error error) :
    error = .unresolvedFamily resource ∨
      ∃ families, error = .ambiguousFamily resource families := by
  rw [governing] at h
  split at h
  · cases h
    exact .inl rfl
  · cases h
  · cases h
    exact .inr ⟨_, rfl⟩

/-- That the family of a resource is not found is no error of the client. -/
theorem resolve_eq_error {pinned : Option String} {resource : String}
    (h : registry.resolve pinned resource = .error error) :
    error.IsLookup ∧ error.side = .server := by
  cases pinned with
  | none =>
    rcases governing_eq_error h with rfl | ⟨families, rfl⟩
    · exact ⟨trivial, rfl⟩
    · exact ⟨trivial, rfl⟩
  | some code =>
    rcases Outcome.bind_eq_error_iff.1 h with h | ⟨found, -, h⟩
    · obtain ⟨-, rfl⟩ := getFamily_eq_error_iff.1 h
      exact ⟨trivial, rfl⟩
    · split at h
      · cases h
      · cases h
        exact ⟨trivial, rfl⟩

/-! ### Properties -/

/-- An attribute is not found because a designation is vacant, because the property is no code, or
because a segment of a dotted name does not lead on. -/
theorem isLookup_of_path {property : String} (h : registry.path family property = .error error) :
    error.IsLookup := by
  have hresolves : registry.Resolves family property (.error error) := h ▸ resolves_path property
  cases hresolves with
  | undesignated => trivial
  | plain => trivial
  | broken _ _ _ _ _ breaks => cases breaks <;> trivial

end Registry

end AttributeFilter
