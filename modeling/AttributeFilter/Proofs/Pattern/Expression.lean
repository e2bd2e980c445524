import AttributeFilter.Pattern.Like

/-!
# Regular expressions

The part of the usual notation for regular expressions that is made of single characters, the dot,
the star behind one of them, and the two anchors. A backslash takes the meaning from a character
that has one, and the flag in front lets the dot stand for a line end as well. An expression is
searched for: it is found in a subject if it matches at some place there.

## Main definitions

* `Regex.Item`: an anchor, or a letter that comes once or any number of times.
* `Regex.read?`: the items of an expression in the notation.
* `Regex.MatchesAt`, `Regex.Found`: what items match at a place of a subject, and anywhere in it.
* `Regex.finds`: the search for items.
* `Regex.Engine`: what compiles expressions and searches for them, and `Regex.Engine.Documented` for
  one that keeps to the meaning of the notation.

## Main results

* `Regex.finds_iff`: the search decides whether items are found.
* `Regex.Engine.plain_documented`: an engine that reads, and searches for, just this notation.
-/

namespace AttributeFilter.Regex

/-! ### Expressions -/

/-- What one character of a subject is asked for. -/
inductive Letter
  | exactly (c : Char)
  | any
  | anyInLine
  deriving DecidableEq, Repr

def Letter.admits : Letter → Char → Bool
  | exactly c, s => s == c
  | any, _ => true
  | anyInLine, s => s != '\n'

/-- A part of an expression: the anchors at the start and at the end of a subject, and a letter that
comes once or any number of times. -/
inductive Item
  | start
  | finish
  | one (letter : Letter)
  | many (letter : Letter)
  deriving DecidableEq, Repr

/-! ### Notation -/

/-- A sign of the notation: a plain character, or one with a backslash in front. -/
inductive Token
  | plain (c : Char)
  | escaped (c : Char)
  deriving DecidableEq, Repr

/-- The signs of a text. A backslash may not stand at its end. -/
def tokens? : List Char → Option (List Token)
  | [] => some []
  | [c] => if c = '\\' then none else some [.plain c]
  | c :: d :: rest =>
    if c = '\\' then (tokens? rest).map (.escaped d :: ·)
    else (tokens? (d :: rest)).map (.plain c :: ·)

/-- The letter that a sign stands for. The dot does not stand for a line end unless the flag says
so. -/
def letter? (flag : Bool) : Token → Option Letter
  | .escaped c => if Like.metaCharacters.contains c then some (.exactly c) else none
  | .plain c =>
    if c = '.' then some (if flag then .any else .anyInLine)
    else if Like.metaCharacters.contains c then none
    else some (.exactly c)

/-- The item that a sign stands for if no star follows. -/
def item? (flag : Bool) (token : Token) : Option Item :=
  if token = .plain '^' then some .start
  else if token = .plain '$' then some .finish
  else (letter? flag token).map .one

/-- The items of signs. A star belongs to the letter in front of it. -/
def items? (flag : Bool) : List Token → Option (List Item)
  | [] => some []
  | [token] => (item? flag token).map ([·])
  | token :: next :: rest =>
    if next = .plain '*' then
      (letter? flag token).bind fun letter => (items? flag rest).map (.many letter :: ·)
    else (item? flag token).bind fun item => (items? flag (next :: rest)).map (item :: ·)

/-- The flag for the dot, in front of an expression. -/
def flagMark : List Char := "(?s)".toList

/-- The items of an expression. Expressions outside this part of the notation are not read. -/
def read? (text : List Char) : Option (List Item) :=
  if flagMark.isPrefixOf text then (tokens? (text.drop flagMark.length)).bind (items? true)
  else (tokens? text).bind (items? false)

theorem tokens?_plain {c : Char} (h : c ≠ '\\') (rest : List Char) :
    tokens? (c :: rest) = (tokens? rest).map (.plain c :: ·) := by
  cases rest <;> simp [tokens?, h]

theorem tokens?_escaped (c : Char) (rest : List Char) :
    tokens? ('\\' :: c :: rest) = (tokens? rest).map (.escaped c :: ·) := by
  simp [tokens?]

theorem items?_starred (flag : Bool) (token : Token) (rest : List Token) :
    items? flag (token :: .plain '*' :: rest) =
      (letter? flag token).bind fun letter => (items? flag rest).map (.many letter :: ·) := by
  simp [items?]

theorem items?_unstarred (flag : Bool) (token : Token) {rest : List Token}
    (h : rest.head? ≠ some (.plain '*')) :
    items? flag (token :: rest) =
      (item? flag token).bind fun item => (items? flag rest).map (item :: ·) := by
  cases rest with
  | nil => cases hitem : item? flag token <;> simp [items?, hitem]
  | cons next rest =>
    rw [items?, if_neg fun hstar => h (by rw [hstar, List.head?_cons])]

/-! ### Meaning -/

/-- Items match at the place of a subject that has some characters before it and the rest behind
it: they stand for a piece from the front of the rest. -/
def MatchesAt : List Item → List Char → List Char → Prop
  | [], _, _ => True
  | .start :: items, before, rest => before = [] ∧ MatchesAt items before rest
  | .finish :: items, before, rest => rest = [] ∧ MatchesAt items before rest
  | .one letter :: items, before, rest =>
    ∃ c later, rest = c :: later ∧ letter.admits c = true ∧ MatchesAt items (before ++ [c]) later
  | .many letter :: items, before, rest =>
    ∃ run later, rest = run ++ later ∧ (∀ c ∈ run, letter.admits c = true) ∧
      MatchesAt items (before ++ run) later

/-- Items are found in a subject if they match at some place there. -/
def Found (items : List Item) (subject : List Char) : Prop :=
  ∃ before rest, subject = before ++ rest ∧ MatchesAt items before rest

/-! ### Search -/

/-- Whether something holds behind some run of a letter. The flag says whether the place is the
start of the subject. -/
def behindRun (letter : Letter) (holds : Bool → List Char → Bool) : Bool → List Char → Bool
  | first, [] => holds first []
  | first, c :: rest =>
    holds first (c :: rest) || (letter.admits c && behindRun letter holds false rest)

/-- Whether items match at a place. The flag says whether it is the start of the subject. -/
def matchesAt : List Item → Bool → List Char → Bool
  | [] => fun _ _ => true
  | .start :: items => fun first rest => first && matchesAt items first rest
  | .finish :: items => fun first rest => rest.isEmpty && matchesAt items first rest
  | .one letter :: items => fun _ rest =>
    match rest with
    | [] => false
    | c :: later => letter.admits c && matchesAt items false later
  | .many letter :: items => behindRun letter (matchesAt items)

def finds (items : List Item) (subject : List Char) : Bool :=
  behindRun .any (matchesAt items) true subject

theorem behindRun_iff {letter : Letter} {holds : Bool → List Char → Bool} :
    {rest : List Char} → {first : Bool} →
      (behindRun letter holds first rest = true ↔
        ∃ run later, rest = run ++ later ∧ (∀ c ∈ run, letter.admits c = true) ∧
          holds (first && run.isEmpty) later = true)
  | [], first => by
    rw [behindRun]
    constructor
    · intro h
      exact ⟨[], [], rfl, by simp, by simpa using h⟩
    · rintro ⟨run, later, heq, -, h⟩
      obtain ⟨rfl, rfl⟩ := List.nil_eq_append_iff.1 heq
      simpa using h
  | c :: rest, first => by
    -- the run is empty, or it starts with the next character and the place is no start any more
    rw [behindRun, Bool.or_eq_true, Bool.and_eq_true, behindRun_iff]
    constructor
    · rintro (h | ⟨hc, run, later, rfl, hrun, h⟩)
      · exact ⟨[], c :: rest, rfl, by simp, by simpa using h⟩
      · exact ⟨c :: run, later, rfl, by simpa using ⟨hc, hrun⟩, by simpa using h⟩
    · rintro ⟨run, later, heq, hrun, h⟩
      cases run with
      | nil =>
        rw [List.nil_append] at heq
        exact .inl (by simpa [heq] using h)
      | cons d run =>
        obtain ⟨rfl, rfl⟩ := List.cons.inj heq
        rw [List.forall_mem_cons] at hrun
        exact .inr ⟨hrun.1, run, later, rfl, hrun.2, by simpa using h⟩

/-- Matching at a place depends on what stands before it only by whether something does. -/
theorem matchesAt_iff : {items : List Item} → {before rest : List Char} →
    (matchesAt items before.isEmpty rest = true ↔ MatchesAt items before rest)
  | [], before, rest => by simp [matchesAt, MatchesAt]
  | .start :: items, before, rest => by
    simp only [matchesAt, MatchesAt, Bool.and_eq_true, List.isEmpty_iff, matchesAt_iff]
  | .finish :: items, before, rest => by
    simp only [matchesAt, MatchesAt, Bool.and_eq_true, List.isEmpty_iff, matchesAt_iff]
  | .one letter :: items, before, rest => by
    cases rest with
    | nil => simp [matchesAt, MatchesAt]
    | cons c later =>
      have ih : matchesAt items false later = true ↔ MatchesAt items (before ++ [c]) later := by
        rw [← matchesAt_iff, List.isEmpty_eq_false_iff.2 (by simp)]
      simp only [matchesAt, MatchesAt, Bool.and_eq_true, ih, List.cons.injEq]
      constructor
      · exact fun h => ⟨c, later, ⟨rfl, rfl⟩, h⟩
      · rintro ⟨_, _, ⟨rfl, rfl⟩, h⟩
        exact h
  | .many letter :: items, before, rest => by
    have hempty : ∀ run : List Char, (before.isEmpty && run.isEmpty) = (before ++ run).isEmpty := by
      cases before <;> simp
    rw [matchesAt, behindRun_iff, MatchesAt]
    simp only [hempty, matchesAt_iff]

/-- The search decides whether items are found. -/
theorem finds_iff {items : List Item} {subject : List Char} :
    finds items subject = true ↔ Found items subject := by
  rw [finds, behindRun_iff, Found]
  simp [Letter.admits, matchesAt_iff]

instance (items : List Item) (subject : List Char) : Decidable (Found items subject) :=
  decidable_of_iff _ finds_iff

/-! ### Engines -/

/-- What compiles expressions. An expression that it can compile becomes a search in subjects. -/
structure Engine where
  compile : String → Option (String → Bool)

namespace Engine

/-- An engine keeps to the meaning of the notation: where it compiles an expression of this part of
it, the search answers whether its items are found. -/
def Documented (engine : Engine) : Prop :=
  ∀ text items search, read? text.toList = some items → engine.compile text = some search →
    ∀ subject, search subject = true ↔ Found items subject.toList

/-- An engine for just this part of the notation. -/
def plain : Engine where
  compile text := (read? text.toList).map fun items subject => finds items subject.toList

theorem isSome_compile_plain (text : String) :
    (plain.compile text).isSome = (read? text.toList).isSome :=
  Option.isSome_map

theorem plain_documented : plain.Documented := by
  intro text items search hread hcompile subject
  obtain ⟨_, hplain, rfl⟩ := Option.map_eq_some_iff.1 hcompile
  cases hread.symm.trans hplain
  exact finds_iff

end Engine

end AttributeFilter.Regex
