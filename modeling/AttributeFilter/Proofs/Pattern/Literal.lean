import AttributeFilter.Pattern.Like

/-!
# Literal patterns

Every pattern matches itself, since a wildcard may stand for its own character. The patterns that
match nothing else are those without wildcards, so comparing with a pattern is comparing with its
text for these patterns and for no others.

## Main definitions

* `Like.Literal`: a pattern without wildcards.

## Main results

* `Like.matches_self`: a pattern matches itself.
* `Like.literal_iff`: the patterns that match nothing but themselves.
-/

namespace AttributeFilter.Like

variable {pattern subject : List Char}

def Literal (pattern : List Char) : Prop :=
  anyRun ∉ pattern ∧ anyOne ∉ pattern

instance (pattern : List Char) : Decidable (Literal pattern) :=
  inferInstanceAs (Decidable (_ ∧ _))

theorem literal_cons_iff {c : Char} :
    Literal (c :: pattern) ↔ c ≠ anyRun ∧ c ≠ anyOne ∧ Literal pattern := by
  simp only [Literal, List.mem_cons, not_or]
  grind

/-- A pattern matches itself: each wildcard stands for its own character. -/
theorem matches_self : (pattern : List Char) → Matches pattern pattern
  | [] => .nil
  | c :: pattern => by
    by_cases hrun : c = anyRun
    · exact hrun ▸ .run [anyRun] (matches_self pattern)
    · by_cases hone : c = anyOne
      · exact hone ▸ .one anyOne (matches_self pattern)
      · exact .same hrun hone (matches_self pattern)

/-- A literal pattern matches nothing but itself. -/
theorem eq_of_literal (h : Matches pattern subject) (hliteral : Literal pattern) :
    subject = pattern := by
  induction h with
  | nil => rfl
  | run piece _ _ => exact absurd rfl (literal_cons_iff.1 hliteral).1
  | one c _ _ => exact absurd rfl (literal_cons_iff.1 hliteral).2.1
  | same _ _ _ ih => rw [ih (literal_cons_iff.1 hliteral).2.2]

/-- A pattern with a wildcard matches another text as well: nothing in the place of a run, or
another character in the place of a single one. -/
theorem exists_matches_ne : {pattern : List Char} → ¬ Literal pattern →
    ∃ subject, Matches pattern subject ∧ subject ≠ pattern
  | [], h => absurd ⟨List.not_mem_nil, List.not_mem_nil⟩ h
  | c :: pattern, h => by
    by_cases hrun : c = anyRun
    · exact ⟨pattern, hrun ▸ .run [] (matches_self pattern), List.ne_cons_self⟩
    · by_cases hone : c = anyOne
      · exact ⟨anyRun :: pattern, hone ▸ .one anyRun (matches_self pattern),
          fun heq => hrun (List.cons.inj heq).1.symm⟩
      · obtain ⟨subject, hmatches, hne⟩ :=
          exists_matches_ne fun hliteral => h (literal_cons_iff.2 ⟨hrun, hone, hliteral⟩)
        exact ⟨c :: subject, .same hrun hone hmatches, fun heq => hne (List.cons.inj heq).2⟩

/-- The literal patterns are those that match nothing but themselves. -/
theorem literal_iff : Literal pattern ↔ ∀ subject, Matches pattern subject ↔ subject = pattern := by
  constructor
  · intro hliteral subject
    refine ⟨fun h => eq_of_literal h hliteral, ?_⟩
    rintro rfl
    exact matches_self subject
  · intro h
    refine Classical.byContradiction fun hwild => ?_
    obtain ⟨subject, hmatches, hne⟩ := exists_matches_ne hwild
    exact hne ((h subject).1 hmatches)

end AttributeFilter.Like
