/-!
# Wildcard patterns

Search conditions compare texts with patterns in which `%` stands for any run of characters,
`_` for any single one, and every other character for itself. A pattern whose regular expression is
too large to be compiled finds nothing at all.

## Main definitions

* `Like.Matches`: a subject cut into consecutive pieces that the characters of a pattern stand for.
* `Like.row`: for a pattern, whether it matches each suffix of a subject. The row of a pattern is
  made from the row of the rest of the pattern, so the work is the product of the two lengths.
* `Like.accepts`: whether a pattern matches a subject.
* `Like.regexText`: the anchored regular expression for a pattern.
* `Like.compiles`: whether the expression is within the size limit.
* `Like.finds`: whether a pattern within the limit matches a subject.

## Main results

* `Like.row_cons`: the row of a longer subject goes on with the row of the shorter one.
* `Like.accepts_iff`: the row decides the relation.
* `Like.finds_iff`: a search finds what a pattern within the limit matches.
* `Like.compiles_of_length_le`: short patterns are within the limit.
-/

namespace AttributeFilter.Like

/-- The wildcard for any run of characters. -/
def anyRun : Char := '%'

/-- The wildcard for any single character. -/
def anyOne : Char := '_'

/-- A subject is cut into consecutive pieces, one for each character of the pattern. -/
inductive Matches : List Char → List Char → Prop
  | nil : Matches [] []
  | run {pattern subject : List Char} (piece : List Char) (rest : Matches pattern subject) :
      Matches (anyRun :: pattern) (piece ++ subject)
  | one {pattern subject : List Char} (c : Char) (rest : Matches pattern subject) :
      Matches (anyOne :: pattern) (c :: subject)
  | same {pattern subject : List Char} {c : Char} (notRun : c ≠ anyRun) (notOne : c ≠ anyOne)
      (rest : Matches pattern subject) : Matches (c :: pattern) (c :: subject)

/-! ### Deciding by rows -/

/-- From the answers for each suffix, whether some later or equal suffix has a positive one. -/
def anyLater : List Bool → List Bool
  | [] => []
  | answer :: rest =>
    let later := anyLater rest
    (answer || later.headD false) :: later

/-- From the answers of the rest of a pattern for each suffix, the answers after one more
character in front of it: the character has to stand for the first of the suffix. -/
def oneMore (c : Char) : List Char → List Bool → List Bool
  | [], _ => [false]
  | s :: subject, answers =>
    ((c == anyOne || c == s) && answers.tail.headD false) :: oneMore c subject answers.tail

/-- Whether the pattern matches each suffix of the subject, the whole subject first. -/
def row : List Char → List Char → List Bool
  | [], subject => subject.map (fun _ => false) ++ [true]
  | c :: pattern, subject =>
    if c = anyRun then anyLater (row pattern subject) else oneMore c subject (row pattern subject)

/-- Whether the pattern matches the subject, however large its regular expression is. -/
def accepts (pattern subject : String) : Bool :=
  (row pattern.toList subject.toList).headD false

theorem row_ne_nil : (pattern subject : List Char) → row pattern subject ≠ []
  | [], subject => by simp [row]
  | c :: pattern, subject => by
    unfold row
    split
    · have h := row_ne_nil pattern subject
      cases hr : row pattern subject with
      | nil => exact absurd hr h
      | cons answer rest => simp [anyLater]
    · cases subject <;> simp [oneMore]

theorem tail_row : (pattern : List Char) → (s : Char) → (subject : List Char) →
    (row pattern (s :: subject)).tail = row pattern subject
  | [], s, subject => by simp [row]
  | c :: pattern, s, subject => by
    have ih := tail_row pattern s subject
    unfold row
    split
    · rw [← ih]
      cases row pattern (s :: subject) <;> simp [anyLater]
    · simp [oneMore, ih]

/-- The row of a longer subject goes on with the row of the shorter one. -/
theorem row_cons (pattern : List Char) (s : Char) (subject : List Char) :
    row pattern (s :: subject) =
      (row pattern (s :: subject)).headD false :: row pattern subject := by
  have h := row_ne_nil pattern (s :: subject)
  have ht := tail_row pattern s subject
  cases hr : row pattern (s :: subject) with
  | nil => exact absurd hr h
  | cons answer rest =>
    rw [hr] at ht
    simpa using ht

/-- A run at the front stands for nothing, or takes one more character. -/
theorem matches_run_cons_iff {pattern : List Char} {s : Char} {subject : List Char} :
    Matches (anyRun :: pattern) (s :: subject) ↔
      Matches pattern (s :: subject) ∨ Matches (anyRun :: pattern) subject := by
  constructor
  · intro h
    generalize hs : s :: subject = whole at h
    cases h with
    | run piece rest =>
      cases piece with
      | nil => exact .inl (by simpa using rest)
      | cons t piece =>
        rw [List.cons_append, List.cons.injEq] at hs
        exact .inr (hs.2 ▸ .run piece rest)
    | same notRun _ _ => exact absurd rfl notRun
  · rintro (h | h)
    · exact .run [] h
    · cases h with
      | run piece rest => exact .run (s :: piece) rest
      | same notRun _ _ => exact absurd rfl notRun

theorem matches_run_nil_iff {pattern : List Char} :
    Matches (anyRun :: pattern) [] ↔ Matches pattern [] := by
  constructor
  · intro h
    generalize hs : ([] : List Char) = whole at h
    cases h with
    | run piece rest =>
      obtain ⟨rfl, rfl⟩ := List.nil_eq_append_iff.1 hs
      exact rest
    | same notRun _ _ => exact absurd rfl notRun
  · exact fun h => .run [] h

theorem matches_cons_iff {pattern : List Char} {c s : Char} {subject : List Char}
    (h : c ≠ anyRun) :
    Matches (c :: pattern) (s :: subject) ↔ (c = anyOne ∨ c = s) ∧ Matches pattern subject := by
  constructor
  · intro hm
    generalize hs : s :: subject = whole at hm
    cases hm with
    | run _ _ => exact absurd rfl h
    | one _ rest => exact ⟨.inl rfl, (List.cons.inj hs).2 ▸ rest⟩
    | same _ _ rest => exact ⟨.inr (List.cons.inj hs).1.symm, (List.cons.inj hs).2 ▸ rest⟩
  · rintro ⟨hc, rest⟩
    by_cases ho : c = anyOne
    · exact ho ▸ .one s rest
    · rcases hc with hc | hc
      · exact absurd hc ho
      · exact hc ▸ .same h ho rest

/-- The row of the empty subject has one entry. -/
theorem tail_row_nil : (pattern : List Char) → (row pattern []).tail = []
  | [] => rfl
  | c :: pattern => by
    unfold row
    split
    · have h := tail_row_nil pattern
      cases hr : row pattern [] with
      | nil => rfl
      | cons answer rest =>
        rw [hr, List.tail_cons] at h
        simp [anyLater, h]
    · rfl

theorem headD_row_run_nil (pattern : List Char) :
    (row (anyRun :: pattern) []).headD false = (row pattern []).headD false := by
  have h := tail_row_nil pattern
  simp only [row, if_true]
  cases hr : row pattern [] with
  | nil => rfl
  | cons answer rest =>
    rw [hr, List.tail_cons] at h
    simp [anyLater, h]

theorem headD_row_run_cons (pattern : List Char) (s : Char) (subject : List Char) :
    (row (anyRun :: pattern) (s :: subject)).headD false =
      ((row pattern (s :: subject)).headD false ||
        (row (anyRun :: pattern) subject).headD false) := by
  simp only [row, if_true]
  conv => lhs; rw [row_cons]
  simp [anyLater]

theorem headD_row_run_iff {pattern : List Char}
    (h : ∀ subject, (row pattern subject).headD false = true ↔ Matches pattern subject) :
    (subject : List Char) →
      ((row (anyRun :: pattern) subject).headD false = true ↔ Matches (anyRun :: pattern) subject)
  | [] => by rw [headD_row_run_nil, matches_run_nil_iff, h]
  | s :: subject => by
    rw [headD_row_run_cons, Bool.or_eq_true, matches_run_cons_iff, h, headD_row_run_iff h subject]

/-- The first entry of a row is the answer for the whole subject. -/
theorem headD_row_iff : (pattern subject : List Char) →
    ((row pattern subject).headD false = true ↔ Matches pattern subject)
  | [], [] => by simpa [row] using Matches.nil
  | [], s :: subject => by
    simp only [row, List.map_cons, List.cons_append, List.headD_cons, Bool.false_eq_true,
      false_iff]
    intro h
    cases h
  | c :: pattern, subject => by
    by_cases hc : c = anyRun
    · rw [hc]
      exact headD_row_run_iff (headD_row_iff pattern) subject
    · cases subject with
      | nil =>
        simp only [row, hc, if_false, oneMore, List.headD_cons, Bool.false_eq_true, false_iff]
        intro h
        generalize hs : ([] : List Char) = whole at h
        cases h with
        | run _ _ => exact hc rfl
        | one _ _ => simp at hs
        | same _ _ _ => simp at hs
      | cons s subject =>
        rw [matches_cons_iff hc, ← headD_row_iff pattern subject]
        simp only [row, hc, if_false, oneMore, List.headD_cons, Bool.and_eq_true,
          Bool.or_eq_true, beq_iff_eq, tail_row]

/-- The row decides the relation. -/
theorem accepts_iff (pattern subject : String) :
    accepts pattern subject = true ↔ Matches pattern.toList subject.toList :=
  headD_row_iff pattern.toList subject.toList

/-! ### Regular expressions -/

/-- The characters that mean something else in a regular expression. -/
def metaCharacters : List Char :=
  ['\\', '.', '+', '*', '?', '(', ')', '|', '[', ']', '\x7b', '\x7d', '^', '$', '#', '&', '-', '~']

/-- The regular expression for one character of a pattern. -/
def regexChar (c : Char) : List Char :=
  if c = anyRun then ['.', '*']
  else if c = anyOne then ['.']
  else if metaCharacters.contains c then ['\\', c]
  else [c]

/-- The regular expression for a pattern: anchored at both ends, the dot standing for every
character. -/
def regexText (pattern : String) : String :=
  "(?s)^" ++ String.ofList (pattern.toList.flatMap regexChar) ++ "$"

/-! ### Size limit

An expression is compiled into steps on bytes, and refused if they take too much room. The room for
a wildcard is counted here as that of the steps for every character there is. Engines may count
otherwise; `Like.finds` is the answer of those that come to the same verdict. -/

/-- The room for a character of a pattern in a compiled expression, in bytes. A character that
stands for itself has a step for each of its own bytes. -/
def compiledSize (c : Char) : Nat :=
  if c = anyRun then 1004
  else if c = anyOne then 964
  else 32 * c.utf8Size

/-- The room for a pattern is that for its characters. -/
def totalSize : List Char → Nat
  | [] => 0
  | c :: pattern => compiledSize c + totalSize pattern

/-- The room that a compiled expression may take, in bytes. -/
def sizeLimit : Nat := 10 * 1024 * 1024

/-- Whether the expression for a pattern can be compiled. -/
def compiles (pattern : String) : Bool :=
  totalSize pattern.toList ≤ sizeLimit

/-- Whether a search for the pattern finds the subject. A pattern that cannot be compiled finds
nothing. -/
def finds (pattern subject : String) : Bool :=
  compiles pattern && accepts pattern subject

theorem finds_iff (pattern subject : String) :
    finds pattern subject = true ↔
      compiles pattern = true ∧ Matches pattern.toList subject.toList := by
  rw [finds, Bool.and_eq_true, accepts_iff]

theorem compiledSize_le (c : Char) : compiledSize c ≤ 1004 := by
  have hbytes := c.utf8Size_le_four
  unfold compiledSize
  split
  · exact Nat.le_refl _
  · split <;> omega

theorem totalSize_le : (pattern : List Char) → totalSize pattern ≤ 1004 * pattern.length
  | [] => Nat.le_refl _
  | c :: pattern => by
    have hfirst := compiledSize_le c
    have hrest := totalSize_le pattern
    rw [totalSize, List.length_cons]
    omega

/-- Short patterns can be compiled, whatever wildcards there are in them. -/
theorem compiles_of_length_le {pattern : String} (h : pattern.toList.length ≤ 10000) :
    compiles pattern = true := by
  have hsize := totalSize_le pattern.toList
  rw [compiles, decide_eq_true_eq, sizeLimit]
  omega

end AttributeFilter.Like
