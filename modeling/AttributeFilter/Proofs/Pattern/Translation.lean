import AttributeFilter.Proofs.Pattern.Expression
import Mathlib.Data.List.Forall2

/-!
# Patterns as regular expressions

A pattern is matched by translating it into a regular expression and searching for that. Wildcards
become dots, and every character that means something in expressions gets a backslash, so no part of
a translated pattern changes the meaning of the part before or behind it. What is found are the
subjects that can be cut into consecutive pieces, one for each character of the pattern. The rows of
a pattern give the same answers without an expression.

## Main definitions

* `Like.StandsFor`: what piece of a subject a character of a pattern stands for.
* `Like.itemOf`: the item for a character of a pattern.
* `Like.searchedBy`: matching by an engine for regular expressions.

## Main results

* `Like.matches_iff_pieces`: a pattern matches what can be cut into pieces for its characters.
* `Like.read?_regexText`: the expression for a pattern is read as one item for each character,
  between the anchors.
* `Like.searchedBy_iff_pieces`: what an engine finds for a pattern.
* `Like.searchedBy_eq_finds`: an engine with the size limit answers as the search does.
-/

namespace AttributeFilter.Like

open Regex (Token Item Engine)

variable {pattern subject : List Char}

/-! ### Pieces of a subject -/

/-- What a character of a pattern stands for: any piece of a subject, any single character, or only
itself. -/
def StandsFor (c : Char) (piece : List Char) : Prop :=
  if c = anyRun then True else if c = anyOne then piece.length = 1 else piece = [c]

/-- A character stands for a piece at the front, and the rest of the pattern matches what is left
over. -/
theorem matches_cons_iff_piece {c : Char} :
    Matches (c :: pattern) subject ↔
      ∃ piece rest, subject = piece ++ rest ∧ StandsFor c piece ∧ Matches pattern rest := by
  constructor
  · intro h
    cases h with
    | run piece rest => exact ⟨piece, _, rfl, by simp [StandsFor], rest⟩
    | one s rest => exact ⟨[s], _, rfl, by simp [StandsFor, anyOne, anyRun], rest⟩
    | same notRun notOne rest => exact ⟨[c], _, rfl, by simp [StandsFor, notRun, notOne], rest⟩
  · rintro ⟨piece, rest, rfl, hpiece, hrest⟩
    unfold StandsFor at hpiece
    split_ifs at hpiece with hrun hone
    · exact hrun ▸ .run piece hrest
    · obtain ⟨s, rfl⟩ := List.length_eq_one_iff.1 hpiece
      exact hone ▸ .one s hrest
    · exact hpiece ▸ .same hrun hone hrest

/-- A pattern matches the subjects that can be cut into consecutive pieces for its characters. -/
theorem matches_iff_pieces : {pattern subject : List Char} →
    (Matches pattern subject ↔
      ∃ pieces, List.Forall₂ StandsFor pattern pieces ∧ subject = pieces.flatten)
  | [], subject => by
    constructor
    · intro h
      cases h
      exact ⟨[], .nil, rfl⟩
    · rintro ⟨pieces, hpieces, rfl⟩
      cases hpieces
      exact .nil
  | c :: pattern, subject => by
    rw [matches_cons_iff_piece]
    constructor
    · rintro ⟨piece, rest, rfl, hpiece, hrest⟩
      obtain ⟨pieces, hpieces, rfl⟩ := matches_iff_pieces.1 hrest
      exact ⟨piece :: pieces, .cons hpiece hpieces, rfl⟩
    · rintro ⟨pieces, hpieces, rfl⟩
      cases hpieces with
      | cons hpiece hpieces =>
        exact ⟨_, _, rfl, hpiece, matches_iff_pieces.2 ⟨_, hpieces, rfl⟩⟩

/-! ### Reading a translated pattern -/

def tokensOf (c : Char) : List Token :=
  if c = anyRun then [.plain '.', .plain '*']
  else if c = anyOne then [.plain '.']
  else if metaCharacters.contains c then [.escaped c]
  else [.plain c]

def itemOf (c : Char) : Item :=
  if c = anyRun then .many .any else if c = anyOne then .one .any else .one (.exactly c)

/-- The backslash in front of a character belongs to it, whatever follows. -/
theorem tokens?_regexChar (c : Char) (rest : List Char) :
    Regex.tokens? (regexChar c ++ rest) = (Regex.tokens? rest).map (tokensOf c ++ ·) := by
  unfold regexChar tokensOf
  split_ifs with hrun hone hmeta
  · rw [List.cons_append, Regex.tokens?_plain (by decide), List.cons_append,
      Regex.tokens?_plain (by decide), Option.map_map]
    rfl
  · rw [List.cons_append, Regex.tokens?_plain (by decide)]
    rfl
  · rw [List.cons_append, List.cons_append, Regex.tokens?_escaped]
    rfl
  · have hne : c ≠ '\\' := by
      rintro rfl
      exact hmeta (by decide)
    rw [List.cons_append, Regex.tokens?_plain hne]
    rfl

/-- No star stands in front of what a pattern is translated into: the one for a wildcard comes
behind its dot, and any other one has a backslash. -/
theorem head?_flatMap_tokensOf_ne : (pattern : List Char) →
    (pattern.flatMap tokensOf ++ [Token.plain '$']).head? ≠ some (.plain '*')
  | [] => by simp
  | c :: pattern => by
    rw [List.flatMap_cons, List.append_assoc]
    unfold tokensOf
    split_ifs with hrun hone hmeta
    · simp
    · simp
    · simp
    · have hne : c ≠ '*' := by
        rintro rfl
        exact hmeta (by decide)
      simpa using hne

/-- The signs for a character are read as its item, if no star follows. -/
theorem items?_tokensOf (c : Char) {rest : List Token}
    (h : rest.head? ≠ some (.plain '*')) :
    Regex.items? true (tokensOf c ++ rest) = (Regex.items? true rest).map (itemOf c :: ·) := by
  unfold tokensOf itemOf
  split_ifs with hrun hone hmeta
  · exact Regex.items?_starred true (.plain '.') rest
  · exact Regex.items?_unstarred true (.plain '.') h
  · rw [List.contains_iff_mem] at hmeta
    rw [List.singleton_append, Regex.items?_unstarred true _ h]
    simp [Regex.item?, Regex.letter?, hmeta]
  · have hsigns : c ≠ '^' ∧ c ≠ '$' ∧ c ≠ '.' := by
      refine ⟨?_, ?_, ?_⟩ <;> rintro rfl <;> exact hmeta (by decide)
    rw [List.contains_iff_mem] at hmeta
    rw [List.singleton_append, Regex.items?_unstarred true _ h]
    simp [Regex.item?, Regex.letter?, hmeta, hsigns]

/-- The signs of all characters are read one after the other, up to the anchor at the end. -/
theorem items?_flatMap_tokensOf : (pattern : List Char) →
    Regex.items? true (pattern.flatMap tokensOf ++ [.plain '$']) =
      some (pattern.map itemOf ++ [.finish])
  | [] => rfl
  | c :: pattern => by
    rw [List.flatMap_cons, List.append_assoc, items?_tokensOf c (head?_flatMap_tokensOf_ne pattern),
      items?_flatMap_tokensOf pattern]
    rfl

theorem tokens?_flatMap_regexChar : (pattern : List Char) →
    Regex.tokens? (pattern.flatMap regexChar ++ ['$']) =
      some (pattern.flatMap tokensOf ++ [.plain '$'])
  | [] => rfl
  | c :: pattern => by
    rw [List.flatMap_cons, List.append_assoc, tokens?_regexChar, tokens?_flatMap_regexChar pattern,
      Option.map_some, List.flatMap_cons, List.append_assoc]

/-- The expression for a pattern is read as one item for each character, between the anchors. -/
theorem read?_regexText (pattern : String) :
    Regex.read? (regexText pattern).toList =
      some (.start :: (pattern.toList.map itemOf ++ [.finish])) := by
  have htext : (regexText pattern).toList =
      Regex.flagMark ++ '^' :: (pattern.toList.flatMap regexChar ++ ['$']) := by
    simp [regexText, Regex.flagMark]
  have hflag : Regex.flagMark.isPrefixOf (regexText pattern).toList = true := by
    rw [htext, List.isPrefixOf_iff_prefix]
    exact List.prefix_append _ _
  rw [Regex.read?, if_pos hflag, htext, List.drop_left, Regex.tokens?_plain (by decide),
    tokens?_flatMap_regexChar, Option.map_some, Option.bind_some,
    Regex.items?_unstarred true _ (head?_flatMap_tokensOf_ne _), items?_flatMap_tokensOf]
  rfl

/-! ### Searching for a translated pattern -/

/-- The item for a character takes a piece that the character stands for. -/
theorem matchesAt_itemOf_cons_iff {c : Char} {items : List Item} {before rest : List Char} :
    Regex.MatchesAt (itemOf c :: items) before rest ↔
      ∃ piece later, rest = piece ++ later ∧ StandsFor c piece ∧
        Regex.MatchesAt items (before ++ piece) later := by
  unfold itemOf StandsFor
  split_ifs with hrun hone
  · simp [Regex.MatchesAt, Regex.Letter.admits]
  · simp only [Regex.MatchesAt, Regex.Letter.admits, true_and, List.length_eq_one_iff]
    constructor
    · rintro ⟨s, later, rfl, h⟩
      exact ⟨[s], later, rfl, ⟨s, rfl⟩, h⟩
    · rintro ⟨_, later, rfl, ⟨s, rfl⟩, h⟩
      exact ⟨s, later, rfl, h⟩
  · simp only [Regex.MatchesAt, Regex.Letter.admits, beq_iff_eq]
    constructor
    · rintro ⟨s, later, rfl, rfl, h⟩
      exact ⟨[s], later, rfl, rfl, h⟩
    · rintro ⟨_, later, rfl, rfl, h⟩
      exact ⟨c, later, rfl, rfl, h⟩

/-- The items for a pattern match up to the end of a subject where the pattern matches. -/
theorem matchesAt_map_itemOf_iff : {pattern before rest : List Char} →
    (Regex.MatchesAt (pattern.map itemOf ++ [.finish]) before rest ↔ Matches pattern rest)
  | [], before, rest => by
    simp only [List.map_nil, List.nil_append, Regex.MatchesAt, and_true]
    constructor
    · rintro rfl
      exact .nil
    · intro h
      cases h
      rfl
  | c :: pattern, before, rest => by
    rw [List.map_cons, List.cons_append, matchesAt_itemOf_cons_iff, matches_cons_iff_piece]
    simp only [matchesAt_map_itemOf_iff]

/-- The expression for a pattern is found in the subjects that the pattern matches as a whole. -/
theorem found_map_itemOf_iff :
    Regex.Found (.start :: (pattern.map itemOf ++ [.finish])) subject ↔
      Matches pattern subject := by
  simp only [Regex.Found, Regex.MatchesAt, matchesAt_map_itemOf_iff]
  constructor
  · rintro ⟨_, rest, rfl, rfl, h⟩
    exact h
  · exact fun h => ⟨[], subject, rfl, rfl, h⟩

/-- Whether a pattern matches a subject by an engine for regular expressions. A pattern whose
expression the engine cannot compile matches nothing. -/
def searchedBy (engine : Engine) (pattern subject : String) : Bool :=
  match engine.compile (regexText pattern) with
  | some search => search subject
  | none => false

/-- An engine that can compile the expression for a pattern finds what the pattern matches. -/
theorem searchedBy_iff {engine : Engine} (hdocumented : engine.Documented) {pattern : String}
    (hcompiles : (engine.compile (regexText pattern)).isSome = true) (subject : String) :
    searchedBy engine pattern subject = true ↔ Matches pattern.toList subject.toList := by
  obtain ⟨search, hsearch⟩ := Option.isSome_iff_exists.1 hcompiles
  rw [searchedBy, hsearch, ← found_map_itemOf_iff]
  exact hdocumented _ _ search (read?_regexText pattern) hsearch subject

/-- An engine that cannot compile it finds nothing. -/
theorem searchedBy_eq_false {engine : Engine} {pattern : String}
    (hrefused : (engine.compile (regexText pattern)).isSome = false) (subject : String) :
    searchedBy engine pattern subject = false := by
  rw [searchedBy, Option.not_isSome_iff_eq_none.1 (Bool.eq_false_iff.1 hrefused)]

/-- An engine with this size limit finds what a search for the pattern finds. -/
theorem searchedBy_eq_finds {engine : Engine} (hdocumented : engine.Documented) {pattern : String}
    (hlimit : (engine.compile (regexText pattern)).isSome = compiles pattern) (subject : String) :
    searchedBy engine pattern subject = finds pattern subject := by
  cases hcompiles : compiles pattern with
  | true =>
    rw [Bool.eq_iff_iff, finds_iff, searchedBy_iff hdocumented (hlimit.trans hcompiles),
      hcompiles, eq_self, true_and]
  | false => rw [searchedBy_eq_false (hlimit.trans hcompiles), finds, hcompiles, Bool.false_and]

/-- **What a pattern matches.** An engine that keeps to the meaning of regular expressions, and can
compile the one for a pattern, finds it in exactly the subjects that can be cut into consecutive
pieces, one for each character of the pattern: any piece for a `%`, a single character for a `_`,
and for every other character only itself. The rows of the pattern give the same answer. -/
theorem searchedBy_iff_pieces (engine : Engine) (hdocumented : engine.Documented)
    (pattern : String) (hcompiles : (engine.compile (regexText pattern)).isSome = true)
    (subject : String) :
    (searchedBy engine pattern subject = true ↔
      ∃ pieces, List.Forall₂ StandsFor pattern.toList pieces ∧
        subject.toList = pieces.flatten) ∧
    searchedBy engine pattern subject = accepts pattern subject := by
  have hmatches := searchedBy_iff hdocumented hcompiles subject
  refine ⟨hmatches.trans matches_iff_pieces, ?_⟩
  rw [Bool.eq_iff_iff, hmatches, accepts_iff]

/-- An expression is made of a pattern with signs that mean something else in expressions. It is
found in a subject of two lines. -/
theorem searchedBy_plain_iff_pieces :
    (Engine.plain.Documented ∧
      (Engine.plain.compile (regexText "(%.*_")).isSome = true) ∧
    ((searchedBy .plain "(%.*_" "(a\nb.*\n" = true ↔
      ∃ pieces, List.Forall₂ StandsFor "(%.*_".toList pieces ∧
        "(a\nb.*\n".toList = pieces.flatten) ∧
    searchedBy .plain "(%.*_" "(a\nb.*\n" = accepts "(%.*_" "(a\nb.*\n") ∧
    accepts "(%.*_" "(a\nb.*\n" = true ∧ accepts "(%.*_" "(a\nb..\n" = false := by
  have hcompiles : (Engine.plain.compile (regexText "(%.*_")).isSome = true := by
    rw [Engine.isSome_compile_plain, read?_regexText]
    rfl
  exact ⟨⟨Engine.plain_documented, hcompiles⟩,
    searchedBy_iff_pieces .plain Engine.plain_documented _ hcompiles _, by decide, by decide⟩

end AttributeFilter.Like
