import AttributeFilter.Pattern.Strategy
import AttributeFilter.Proofs.Pattern.Literal
import AttributeFilter.Proofs.Pattern.Translation
import AttributeFilter.Proofs.Text.Trim

/-!
# Where a strategy searches

The pattern of a strategy is the bare value with runs at some of its ends. A run in front lets what
follows match at the end of a subject, one behind lets what comes before match at the start, and
both together anywhere. The wildcards inside of the value keep their meaning: what is found at such
a place is a piece of the subject that the bare value matches, which is the value itself if it has
no wildcards. A pattern is its own pattern again, since the runs at its ends are taken off before
they are put there. All this is what a search finds as long as the pattern can be compiled; where it
is too large nothing is found.

## Main definitions

* `SearchStrategy.Finds`: at what place of a subject a strategy looks for a piece.
* `SearchStrategy.SearchesBare`: a search that finds the bare value at the place of a strategy.

## Main results

* `Like.matches_append_iff`: two patterns in a row match two pieces in a row.
* `SearchStrategy.matches_pattern_iff`: the pattern of a strategy has the bare value at its place.
* `SearchStrategy.pattern_pattern`: the pattern of a pattern is the pattern.
* `SearchStrategy.pattern_finds_bare`: what the strategies mean.
-/

namespace AttributeFilter

namespace Like

variable {pattern later subject : List Char}

theorem matches_nil_iff : Matches [] subject ↔ subject = [] := by
  constructor
  · intro h
    cases h
    rfl
  · rintro rfl
    exact .nil

/-- Two patterns in a row match what can be cut in two, the first of which matches the first piece
and the second the other one. -/
theorem matches_append_iff : {pattern subject : List Char} →
    (Matches (pattern ++ later) subject ↔
      ∃ piece rest, subject = piece ++ rest ∧ Matches pattern piece ∧ Matches later rest)
  | [], subject => by simp [matches_nil_iff]
  | c :: pattern, subject => by
    simp only [List.cons_append, matches_cons_iff_piece, matches_append_iff]
    constructor
    · rintro ⟨first, _, rfl, hfirst, piece, rest, rfl, hpiece, hrest⟩
      exact ⟨first ++ piece, rest, (List.append_assoc ..).symm, ⟨first, piece, rfl, hfirst, hpiece⟩,
        hrest⟩
    · rintro ⟨_, rest, rfl, ⟨first, piece, rfl, hfirst, hpiece⟩, hrest⟩
      exact ⟨first, piece ++ rest, List.append_assoc .., hfirst, piece, rest, rfl, hpiece, hrest⟩

theorem matches_run (subject : List Char) : Matches [anyRun] subject := by
  simpa using Matches.run subject .nil

/-- With a run in front, a pattern matches what ends with a piece that it matches. -/
theorem matches_run_cons_iff_suffix :
    Matches (anyRun :: pattern) subject ↔ ∃ piece, Matches pattern piece ∧ piece <:+ subject := by
  rw [← List.singleton_append, matches_append_iff]
  constructor
  · rintro ⟨before, piece, rfl, -, hpiece⟩
    exact ⟨piece, hpiece, List.suffix_append before piece⟩
  · rintro ⟨piece, hpiece, before, rfl⟩
    exact ⟨before, piece, rfl, matches_run before, hpiece⟩

/-- With a run behind, a pattern matches what starts with a piece that it matches. -/
theorem matches_concat_run_iff_prefix :
    Matches (pattern ++ [anyRun]) subject ↔
      ∃ piece, Matches pattern piece ∧ piece <+: subject := by
  rw [matches_append_iff]
  constructor
  · rintro ⟨piece, rest, rfl, hpiece, -⟩
    exact ⟨piece, hpiece, List.prefix_append piece rest⟩
  · rintro ⟨piece, hpiece, rest, rfl⟩
    exact ⟨piece, rest, rfl, hpiece, matches_run rest⟩

/-- With runs at both ends, a pattern matches what contains a piece that it matches. -/
theorem matches_run_cons_concat_run_iff_infix :
    Matches (anyRun :: (pattern ++ [anyRun])) subject ↔
      ∃ piece, Matches pattern piece ∧ piece <:+: subject := by
  simp only [matches_run_cons_iff_suffix, matches_concat_run_iff_prefix,
    List.infix_iff_prefix_suffix]
  constructor
  · rintro ⟨ending, ⟨piece, hpiece, hprefix⟩, hsuffix⟩
    exact ⟨piece, hpiece, ending, hprefix, hsuffix⟩
  · rintro ⟨piece, hpiece, ending, hprefix, hsuffix⟩
    exact ⟨ending, ⟨piece, hpiece, hprefix⟩, hsuffix⟩

/-- Any number of runs may stand for nothing. -/
theorem matches_replicate_run_append (h : Matches later subject) : (n : Nat) →
    Matches (List.replicate n anyRun ++ later) subject
  | 0 => h
  | n + 1 => .run [] (matches_replicate_run_append h n)

/-- The room that runs take adds up. -/
theorem totalSize_replicate_run_append (later : List Char) : (n : Nat) →
    totalSize (List.replicate n anyRun ++ later) = n * 1004 + totalSize later
  | 0 => by simp
  | n + 1 => by
    have hrun : compiledSize anyRun = 1004 := rfl
    rw [List.replicate_succ, List.cons_append, totalSize, totalSize_replicate_run_append later n,
      hrun]
    omega

end Like

namespace SearchStrategy

/-- At what place of a subject a strategy looks for a piece: it is all of the subject, or somewhere
in it, at its start or at its end. -/
def Finds (strategy : SearchStrategy) (piece subject : List Char) : Prop :=
  match strategy with
  | exact => piece = subject
  | within | wordStart => piece <:+: subject
  | atStart => piece <+: subject
  | atEnd => piece <:+ subject

variable (strategy : SearchStrategy) (value : String)

theorem toList_bare : (bare value).toList = Text.trim (· = Like.anyRun) value.toList :=
  String.toList_ofList

/-- The bare value is what is left of a value without the runs at its ends. -/
theorem trimsTo_bare : Text.TrimsTo (· = Like.anyRun) value.toList (bare value).toList :=
  Text.trim_eq_iff.1 (toList_bare value).symm

theorem toList_wildcard : wildcard.toList = [Like.anyRun] :=
  rfl

/-- The pattern of a strategy matches what has the bare value at the place where the strategy
looks. -/
theorem matches_pattern_iff (subject : List Char) :
    Like.Matches (strategy.pattern value).toList subject ↔
      ∃ piece, Like.Matches (bare value).toList piece ∧ strategy.Finds piece subject := by
  cases strategy with
  | exact => simp [pattern, Finds]
  | within | wordStart =>
    simp only [pattern, Finds, String.toList_append, toList_wildcard, List.cons_append,
      List.nil_append, Like.matches_run_cons_concat_run_iff_infix]
  | atStart =>
    simp only [pattern, Finds, String.toList_append, toList_wildcard,
      Like.matches_concat_run_iff_prefix]
  | atEnd =>
    simp only [pattern, Finds, String.toList_append, toList_wildcard, List.cons_append,
      List.nil_append, Like.matches_run_cons_iff_suffix]

/-- The start of a word is found inside of words as well. -/
example : Like.finds (wordStart.pattern "hoe%") "running shoe" = true := by decide

/-- A search finds the subjects that have, at the place where the strategy looks, a piece which the
bare value matches. That is the bare value itself if it has no wildcards. -/
structure SearchesBare (search : String → Bool) : Prop where
  placed : ∀ subject, search subject = true ↔
    ∃ piece, Like.Matches (bare value).toList piece ∧ strategy.Finds piece subject.toList
  literal : Like.Literal (bare value).toList → ∀ subject,
    search subject = true ↔ strategy.Finds (bare value).toList subject.toList

/-- A search for the pattern of a strategy is one for the bare value. -/
theorem searchesBare_of_matches {search : String → Bool}
    (h : ∀ subject, search subject = true ↔
      Like.Matches (strategy.pattern value).toList subject.toList) :
    strategy.SearchesBare value search := by
  have hplaced (subject : String) := (h subject).trans (matches_pattern_iff strategy value _)
  refine ⟨hplaced, fun hliteral subject => ?_⟩
  rw [hplaced]
  simp only [Like.literal_iff.1 hliteral, exists_eq_left]

/-- A pattern is the bare value with nothing but runs around it. -/
theorem exists_toList_pattern :
    ∃ front back, (strategy.pattern value).toList = front ++ (bare value).toList ++ back ∧
      (∀ c ∈ front, c = Like.anyRun) ∧ ∀ c ∈ back, c = Like.anyRun := by
  cases strategy with
  | exact => exact ⟨[], [], by simp [pattern], by simp, by simp⟩
  | within | wordStart =>
    exact ⟨[Like.anyRun], [Like.anyRun], by simp [pattern, toList_wildcard], by simp, by simp⟩
  | atStart => exact ⟨[], [Like.anyRun], by simp [pattern, toList_wildcard], by simp, by simp⟩
  | atEnd => exact ⟨[Like.anyRun], [], by simp [pattern, toList_wildcard], by simp, by simp⟩

/-- The runs that a strategy puts around a bare value are taken off again. -/
theorem bare_pattern : bare (strategy.pattern value) = bare value := by
  obtain ⟨front, back, hpattern, hfront, hback⟩ := exists_toList_pattern strategy value
  rw [← String.toList_inj, toList_bare, hpattern,
    Text.trim_append (fun c hc => decide_eq_true (hfront c hc))
      fun c hc => decide_eq_true (hback c hc),
    toList_bare, Text.trim_trim]

theorem pattern_pattern : strategy.pattern (strategy.pattern value) = strategy.pattern value := by
  have hbare := bare_pattern strategy value
  cases strategy <;> rw [pattern, hbare, pattern]

/-- **What the strategies mean.** The bare value is left of a value when the runs at its ends are
taken off. An engine that can compile the pattern of a strategy finds the subjects that have, at the
place where the strategy looks, a piece which the bare value matches, or the bare value itself if it
has no wildcards; one that cannot compile it finds nothing. The search with the size limit does so
as well, and answers as every engine with this limit. And the pattern of a pattern is the
pattern. -/
theorem pattern_finds_bare (strategy : SearchStrategy) (value : String) :
    Text.TrimsTo (· = Like.anyRun) value.toList (bare value).toList ∧
    (∀ engine : Regex.Engine, engine.Documented →
      ((engine.compile (Like.regexText (strategy.pattern value))).isSome = true →
        strategy.SearchesBare value (Like.searchedBy engine (strategy.pattern value))) ∧
      ((engine.compile (Like.regexText (strategy.pattern value))).isSome = false →
        ∀ subject, Like.searchedBy engine (strategy.pattern value) subject = false) ∧
      ((engine.compile (Like.regexText (strategy.pattern value))).isSome =
          Like.compiles (strategy.pattern value) →
        ∀ subject, Like.searchedBy engine (strategy.pattern value) subject =
          Like.finds (strategy.pattern value) subject)) ∧
    (Like.compiles (strategy.pattern value) = true →
      strategy.SearchesBare value (Like.finds (strategy.pattern value))) ∧
    (Like.compiles (strategy.pattern value) = false →
      ∀ subject, Like.finds (strategy.pattern value) subject = false) ∧
    strategy.pattern (strategy.pattern value) = strategy.pattern value := by
  refine ⟨trimsTo_bare value,
    fun engine hdocumented => ⟨fun hcompiles => ?_, Like.searchedBy_eq_false,
      Like.searchedBy_eq_finds hdocumented⟩,
    fun hcompiles => ?_, fun hrefused subject => ?_, pattern_pattern strategy value⟩
  · exact searchesBare_of_matches strategy value (Like.searchedBy_iff hdocumented hcompiles)
  · refine searchesBare_of_matches strategy value fun subject => ?_
    rw [Like.finds_iff, and_iff_right hcompiles]
  · rw [Like.finds, hrefused, Bool.false_and]

/-- A value with more than one run at its end is searched for at the end of subjects. -/
theorem pattern_finds_shoe :
    (Regex.Engine.plain.Documented ∧
      (Regex.Engine.plain.compile (Like.regexText (atEnd.pattern "shoe%%"))).isSome = true ∧
        Like.compiles (atEnd.pattern "shoe%%") = true ∧ Like.Literal (bare "shoe%%").toList) ∧
    (Like.searchedBy .plain (atEnd.pattern "shoe%%") "running shoe" = true ↔
      (bare "shoe%%").toList <:+ "running shoe".toList) ∧
    (Like.finds (atEnd.pattern "shoe%%") "running shoe" = true ↔
      (bare "shoe%%").toList <:+ "running shoe".toList) ∧
    Like.finds (atEnd.pattern "shoe%%") "running shoe" = true ∧
    Like.finds (atEnd.pattern "shoe%%") "shoe rack" = false := by
  have hengine : (Regex.Engine.plain.compile
      (Like.regexText (atEnd.pattern "shoe%%"))).isSome = true := by
    rw [Regex.Engine.isSome_compile_plain, Like.read?_regexText]
    rfl
  have hcompiles : Like.compiles (atEnd.pattern "shoe%%") = true := by decide
  have hliteral : Like.Literal (bare "shoe%%").toList := by decide
  obtain ⟨-, hsearched, hfinds, -, -⟩ := pattern_finds_bare atEnd "shoe%%"
  exact ⟨⟨Regex.Engine.plain_documented, hengine, hcompiles, hliteral⟩,
    ((hsearched .plain Regex.Engine.plain_documented).1 hengine).literal hliteral _,
    (hfinds hcompiles).literal hliteral _, by decide, by decide⟩

/-- A text with forty thousand runs between two letters. -/
def manyRuns : String :=
  String.ofList ('a' :: (List.replicate 40000 Like.anyRun ++ ['b']))

/-- Its runs are inside, so none of them is taken off. -/
theorem bare_manyRuns : bare manyRuns = manyRuns := by
  have htrimmed : Text.Trimmed (· = Like.anyRun) manyRuns.toList := by
    rw [manyRuns, String.toList_ofList]
    constructor
    · rintro c hc
      cases hc
      rfl
    · rintro c hc
      rw [← List.cons_append, List.getLast?_concat] at hc
      cases hc
      rfl
  rw [bare, htrimmed.trim_eq, String.ofList_toList]

/-- All of the runs may stand for nothing, but there are too many of them to be compiled, so the
text is not found, and neither does an engine find it that refuses the pattern. -/
theorem not_searchesBare_manyRuns :
    bare manyRuns = manyRuns ∧ Like.Matches (bare manyRuns).toList "ab".toList ∧
      Like.finds (exact.pattern manyRuns) "ab" = false ∧
      ¬ exact.SearchesBare manyRuns (Like.finds (exact.pattern manyRuns)) ∧
      ∀ engine : Regex.Engine,
        (engine.compile (Like.regexText (exact.pattern manyRuns))).isSome = false →
          ¬ exact.SearchesBare manyRuns (Like.searchedBy engine (exact.pattern manyRuns)) := by
  have hmatches : Like.Matches (bare manyRuns).toList "ab".toList := by
    rw [bare_manyRuns, manyRuns, String.toList_ofList]
    refine .same (by decide) (by decide) (Like.matches_replicate_run_append ?_ 40000)
    exact .same (by decide) (by decide) .nil
  have hlarge : Like.compiles (exact.pattern manyRuns) = false := by
    rw [pattern, bare_manyRuns, manyRuns, Like.compiles, String.toList_ofList, Like.totalSize,
      Like.totalSize_replicate_run_append, Like.sizeLimit]
    exact decide_eq_false (by omega)
  have hmissed : Like.finds (exact.pattern manyRuns) "ab" = false := by
    rw [Like.finds, hlarge, Bool.false_and]
  have hsearches {search : String → Bool} (hsearch : search "ab" = false) :
      ¬ exact.SearchesBare manyRuns search := by
    intro h
    have hfound := (h.placed "ab").2 ⟨"ab".toList, hmatches, rfl⟩
    rw [hsearch] at hfound
    cases hfound
  exact ⟨bare_manyRuns, hmatches, hmissed, hsearches hmissed, fun engine hrefused =>
    hsearches (Like.searchedBy_eq_false hrefused "ab")⟩

end SearchStrategy

end AttributeFilter
