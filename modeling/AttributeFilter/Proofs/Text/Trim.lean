import AttributeFilter.Text.Blank
import Mathlib.Data.List.DropRight

/-!
# Trimmed texts

Trimming takes as many characters of a class as there are from both ends of a text, and nothing
else. The text that is left begins and ends with other characters, and it is the only part of the
text that can be left in this way. So a text may be trimmed once more, or get more characters of the
class at its ends before, and what is left is the same.

## Main definitions

* `Text.Trimmed`: a text that does not begin or end with a character of the class.
* `Text.TrimsTo`: what is left of a text when the characters of the class are taken off.

## Main results

* `Text.trimStart_eq_iff`: what trimming leaves at the front.
* `Text.trim_eq_iff`: trimming leaves what is left of a text.
* `Text.trim_append`: characters of the class at the ends make no difference.
* `Text.trim_trim`: neither does trimming before.
-/

namespace AttributeFilter.Text

variable {p : Char → Bool} {text core front back : List Char}

/-- The text does not begin or end with a character of the class. -/
structure Trimmed (p : Char → Bool) (text : List Char) : Prop where
  head : ∀ c ∈ text.head?, p c = false
  last : ∀ c ∈ text.getLast?, p c = false

instance (p : Char → Bool) (text : List Char) : Decidable (Trimmed p text) :=
  decidable_of_iff (text.head?.any p = false ∧ text.getLast?.any p = false) <| by
    simp only [Option.any_eq_false]
    exact ⟨fun h => ⟨h.1, h.2⟩, fun h => ⟨h.head, h.last⟩⟩

/-- The core is left of the text when the characters of the class are taken off its ends. -/
structure TrimsTo (p : Char → Bool) (text core : List Char) : Prop where
  around : ∃ front back, text = front ++ core ++ back ∧ (∀ c ∈ front, p c = true) ∧
    ∀ c ∈ back, p c = true
  trimmed : Trimmed p core

/-- Trimming at the front leaves the part of the text behind a run of characters of the class that
does not begin with one more of them. -/
theorem trimStart_eq_iff : trimStart p text = core ↔
    ∃ front, text = front ++ core ∧ (∀ c ∈ front, p c = true) ∧ ∀ c ∈ core.head?, p c = false := by
  constructor
  · rintro rfl
    refine ⟨text.takeWhile p, List.takeWhile_append_dropWhile.symm,
      fun c => List.mem_takeWhile_imp, fun c hc => ?_⟩
    have hnot := List.head?_dropWhile_not p text
    rwa [← trimStart, Option.mem_def.1 hc] at hnot
  · rintro ⟨front, rfl, hfront, hcore⟩
    rw [trimStart, List.dropWhile_append_of_pos hfront]
    cases core with
    | nil => rfl
    | cons c rest => exact List.dropWhile_cons_of_neg (by simp [hcore c rfl])

theorem trimEnd_eq_rdropWhile (p : Char → Bool) (text : List Char) :
    trimEnd p text = text.rdropWhile p :=
  rfl

/-- Characters of the class at the ends make no difference. -/
theorem trim_append (hfront : ∀ c ∈ front, p c = true) (hback : ∀ c ∈ back, p c = true) :
    trim p (front ++ text ++ back) = trim p text := by
  have hend (middle : List Char) : trimEnd p (middle ++ back) = trimEnd p middle := by
    rw [trimEnd, List.reverse_append,
      List.dropWhile_append_of_pos fun c hc => hback c (List.mem_reverse.1 hc), trimEnd]
  rw [trim, trimStart, List.append_assoc, List.dropWhile_append_of_pos hfront,
    List.dropWhile_append]
  split
  · -- nothing but characters of the class is in the text, so all of what follows goes as well
    next hnone =>
    rw [List.dropWhile_eq_nil_iff.2 hback, trim, trimStart, List.isEmpty_iff.1 hnone]
  · rw [hend, trim, trimStart]

/-- What trimming leaves has characters of the class around it in the text. -/
theorem exists_eq_append_trim (p : Char → Bool) (text : List Char) :
    ∃ front back, text = front ++ trim p text ++ back ∧ (∀ c ∈ front, p c = true) ∧
      ∀ c ∈ back, p c = true := by
  refine ⟨text.takeWhile p, (text.dropWhile p).rtakeWhile p, ?_,
    fun c => List.mem_takeWhile_imp, fun c => List.mem_rtakeWhile_imp⟩
  rw [trim, trimStart, trimEnd_eq_rdropWhile, List.append_assoc,
    List.rdropWhile_append_rtakeWhile, List.takeWhile_append_dropWhile]

theorem trimmed_trim (p : Char → Bool) (text : List Char) : Trimmed p (trim p text) := by
  constructor
  · intro c hc
    have hfirst : (text.dropWhile p).head? = some c := by
      obtain ⟨later, hlater⟩ := List.rdropWhile_prefix p (text.dropWhile p)
      rw [trim, trimStart, trimEnd_eq_rdropWhile] at hc
      rw [← hlater, List.head?_append, Option.mem_def.1 hc, Option.some_or]
    have hnot := List.head?_dropWhile_not p text
    rwa [hfirst] at hnot
  · intro c hc
    rw [trim, trimEnd, List.getLast?_reverse] at hc
    have hnot := List.head?_dropWhile_not p (trimStart p text).reverse
    rwa [Option.mem_def.1 hc] at hnot

theorem Trimmed.trim_eq (h : Trimmed p text) : trim p text = text := by
  have hstart : text.dropWhile p = text := List.dropWhile_eq_self_iff.2 fun hl => by
    have hhead := h.head (text[0]) (List.head?_eq_getElem? ▸ List.getElem?_eq_getElem hl)
    simp [hhead]
  rw [trim, trimStart, hstart, trimEnd_eq_rdropWhile, List.rdropWhile_eq_self_iff]
  intro hl
  simp [h.last _ (List.getLast?_eq_getLast_of_ne_nil hl)]

theorem trim_eq_self_iff : trim p text = text ↔ Trimmed p text :=
  ⟨fun h => h ▸ trimmed_trim p text, Trimmed.trim_eq⟩

/-- **Trimming.** It leaves what is left of a text when the characters of the class are taken off
its ends, and this is one text alone. -/
theorem trim_eq_iff : trim p text = core ↔ TrimsTo p text core := by
  constructor
  · rintro rfl
    exact ⟨exists_eq_append_trim p text, trimmed_trim p text⟩
  · rintro ⟨⟨front, back, rfl, hfront, hback⟩, htrimmed⟩
    rw [trim_append hfront hback, htrimmed.trim_eq]

@[simp] theorem trim_trim (p : Char → Bool) (text : List Char) :
    trim p (trim p text) = trim p text :=
  (trimmed_trim p text).trim_eq

/-- Where no character of the class is, there is nothing to drop. -/
theorem trim_eq_self (h : ∀ c ∈ text, p c = false) : trim p text = text :=
  Trimmed.trim_eq
    ⟨fun c hc => h c (List.mem_of_mem_head? hc), fun c hc => h c (List.mem_of_getLast? hc)⟩

end AttributeFilter.Text
