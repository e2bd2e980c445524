/-!
# Cutting a text in two

A request writes a name and its value with a separator between them, and only the first separator
counts: the value may hold more of them.

## Main definitions

* `Text.cut?`: the parts before and after the first occurrence of a separator.

## Main results

* `Text.cut?_eq_none_iff`: only a text without the separator cannot be cut.
* `Text.cut?_eq_some`: the two parts of a cut and the separator make up the text.
* `Text.cut?_append_of_notMem`: a text is cut at a separator that none stands before.
-/

namespace AttributeFilter.Text

/-- The parts before and after the first occurrence of the separator. -/
def cut? (separator : Char) : List Char → Option (List Char × List Char)
  | [] => none
  | c :: rest =>
    if c = separator then some ([], rest)
    else (cut? separator rest).map fun parts => (c :: parts.1, parts.2)

theorem cut?_eq_none_iff (separator : Char) :
    (text : List Char) → (cut? separator text = none ↔ separator ∉ text)
  | [] => by simp [cut?]
  | c :: rest => by
    by_cases h : c = separator
    · simp [cut?, h]
    · simp [cut?, h, cut?_eq_none_iff separator rest, Ne.symm h]

/-- The parts of a cut, with the separator between them, are the text, and the first part is free
of the separator. -/
theorem cut?_eq_some {separator : Char} :
    {text before after : List Char} → cut? separator text = some (before, after) →
      text = before ++ separator :: after ∧ separator ∉ before
  | [], _, _, h => by simp [cut?] at h
  | c :: rest, before, after, h => by
    by_cases hc : c = separator
    · simp only [cut?, hc, if_true, Option.some.injEq, Prod.mk.injEq] at h
      obtain ⟨rfl, rfl⟩ := h
      simp [hc]
    · simp only [cut?, hc, if_false, Option.map_eq_some_iff] at h
      obtain ⟨⟨b, a⟩, hcut, heq⟩ := h
      simp only [Prod.mk.injEq] at heq
      obtain ⟨rfl, rfl⟩ := heq
      obtain ⟨htext, hb⟩ := cut?_eq_some hcut
      simp [htext, hb, Ne.symm hc]

/-- A text is cut at a separator that none stands before. -/
theorem cut?_append_of_notMem {separator : Char} {before : List Char} (h : separator ∉ before)
    (after : List Char) : cut? separator (before ++ separator :: after) = some (before, after) := by
  induction before with
  | nil => rw [List.nil_append, cut?, if_pos rfl]
  | cons c rest ih =>
    rw [List.mem_cons, not_or] at h
    rw [List.cons_append, cut?, if_neg (Ne.symm h.1), ih h.2]
    rfl

end AttributeFilter.Text
