import AttributeFilter.Parameter.QueryText
import AttributeFilter.Proofs.Parameter.Leaves

/-!
# The parameters that a query text gives

Whatever a query text says, and however its names contradict each other, reading it leaves trees of
one shape. A name is taken apart into a base name and steps that fit between brackets, at most so
many; a name that opens a bracket without closing it has no steps at all. Writing a text keeps every
parameter in shape and adds no text but its own, so what holds of each pair holds of the whole.

## Main definitions

* `QueryText.IsBaseName`: a name of a parameter in a mode.
* `QueryText.WellFormed`: parameters with distinct names, in shape and not too deep.
* `QueryText.Pair.WellFormed`: a pair that writes to a possible place.

## Main results

* `Key.readGroups_eq_steps`, `Key.split?_eq_some`: what a name is taken apart into.
* `QueryText.wellFormed_of_pair?`: every pair that counts writes to a possible place.
* `QueryText.WellFormed.write`: a pair keeps parameters well formed.
* `QueryText.wellFormed_parse`: the parameters of any query text are well formed, and the ones whose
  name has an unclosed bracket hold a text.
-/

namespace AttributeFilter

open Parameter (Segment IsBracketName)

namespace Key

/-- The step between brackets appends, or its name can stand there. -/
theorem isBracketName_of_segmentOf {inner : List Char} {name : String} (h : ']' ∉ inner)
    (hname : segmentOf inner = .key name) : IsBracketName name := by
  rw [segmentOf] at hname
  split at hname
  · nomatch hname
  · next hinner =>
    cases hname
    rw [List.isEmpty_iff] at hinner
    exact ⟨fun hempty => hinner (String.ofList_eq_empty_iff.1 hempty), by
      rwa [String.toList_ofList]⟩

theorem cons_eq_steps {segment : Segment} {groups : Groups} {segments : List Segment}
    (h : groups.cons segment = .steps segments) :
    ∃ rest, groups = .steps rest ∧ segments = segment :: rest := by
  cases groups with
  | steps rest =>
    cases h
    exact ⟨rest, rfl, rfl⟩
  | unclosed => nomatch h
  | tooDeep => nomatch h

/-- The groups at the front of a text are at most as many as are allowed, and their names can stand
between brackets. -/
theorem readGroups_eq_steps {allowed : Nat} {text : List Char} {segments : List Segment}
    (h : readGroups allowed text = .steps segments) :
    segments.length ≤ allowed ∧ ∀ name, Segment.key name ∈ segments → IsBracketName name := by
  fun_induction readGroups allowed text generalizing segments with
  | case1 => nomatch h
  | case2 => nomatch h
  | case3 inner name after hcut allowed ih =>
    obtain ⟨rest, hrest, rfl⟩ := cons_eq_steps h
    obtain ⟨hlength, hnames⟩ := ih hrest
    refine ⟨Nat.succ_le_succ hlength, fun other hother => ?_⟩
    rcases List.mem_cons.1 hother with hfirst | hmem
    · exact isBracketName_of_segmentOf (Text.cut?_eq_some hcut).2 hfirst.symm
    · exact hnames other hmem
  | case4 =>
    cases h
    exact ⟨Nat.zero_le _, fun _ hname => absurd hname List.not_mem_nil⟩

/-- A name is taken apart into a base name and at most `maxNesting` steps whose names can stand
between brackets; only a name without steps keeps a bracket in its base name. -/
theorem split?_eq_some {name base : List Char} {segments : List Segment}
    (h : split? name = some (base, segments)) :
    segments.length ≤ maxNesting ∧ (∀ inner, Segment.key inner ∈ segments → IsBracketName inner) ∧
      ('[' ∈ base → segments = []) := by
  cases hgroups : readGroups maxNesting (name.dropWhile (· ≠ '[')) with
  | steps read =>
    simp only [split?, hgroups, Option.some.injEq, Prod.mk.injEq] at h
    obtain ⟨rfl, rfl⟩ := h
    obtain ⟨hlength, hnames⟩ := readGroups_eq_steps hgroups
    refine ⟨hlength, hnames, fun hopen => ?_⟩
    have hne := List.all_takeWhile (p := (· ≠ '[')) (l := name)
    rw [List.all_eq_true] at hne
    simpa using hne '[' hopen
  | unclosed =>
    simp only [split?, hgroups, Option.some.injEq, Prod.mk.injEq] at h
    obtain ⟨rfl, rfl⟩ := h
    exact ⟨Nat.zero_le _, fun _ hname => absurd hname List.not_mem_nil, fun _ => rfl⟩
  | tooDeep => simp only [split?, hgroups, reduceCtorEq] at h

end Key

namespace KeyMode

theorem renameChar_eq_bracket_iff (mode : KeyMode) (c : Char) :
    mode.renameChar c = '[' ↔ c = '[' := by
  cases mode with
  | flattened =>
    rw [renameChar]
    split
    · next hc => rcases hc with rfl | rfl <;> decide
    · exact Iff.rfl
  | preserved => exact Iff.rfl

/-- A flattened base name has neither dots nor blanks. -/
theorem not_mem_rename_flattened (base : List Char) :
    '.' ∉ rename .flattened base ∧ ' ' ∉ rename .flattened base := by
  have hne : ∀ c, renameChar .flattened c ≠ '.' ∧ renameChar .flattened c ≠ ' ' := by
    intro c
    rw [renameChar]
    split
    · decide
    · next hc => exact not_or.1 hc
  constructor
  · intro hmem
    obtain ⟨c, -, hc⟩ := List.mem_map.1 hmem
    exact (hne c).1 hc
  · intro hmem
    obtain ⟨c, -, hc⟩ := List.mem_map.1 hmem
    exact (hne c).2 hc

end KeyMode

namespace QueryText

variable {mode : KeyMode} {parameters : Parameters} {pair : Pair}

/-- A name that a parameter can have in a mode: it is not empty, and if flattened it has neither
dots nor blanks. -/
def IsBaseName (mode : KeyMode) (name : String) : Prop :=
  name ≠ "" ∧ (mode = .flattened → '.' ∉ name.toList ∧ ' ' ∉ name.toList)

instance (mode : KeyMode) (name : String) : Decidable (IsBaseName mode name) :=
  inferInstanceAs (Decidable (_ ∧ _))

/-- Parameters with distinct names, in shape, and with no text below more than `maxNesting`
steps. -/
structure WellFormed (mode : KeyMode) (parameters : Parameters) : Prop where
  distinct : (Keyed.keys parameters).Nodup
  named : ∀ name ∈ Keyed.keys parameters, IsBaseName mode name
  shaped : ∀ entry ∈ parameters, entry.2.Shaped
  shallow : ∀ entry ∈ parameters, ∀ leaf ∈ entry.2.leaves, leaf.steps.length ≤ Key.maxNesting

/-- Parameters whose name has an unclosed bracket hold a text. -/
def BracketsHoldTexts (parameters : Parameters) : Prop :=
  ∀ entry ∈ parameters, '[' ∈ entry.1.toList → ∃ text, entry.2 = .scalar text

/-- A pair that writes to a possible place: its name and its steps could be those of a text in
well-formed parameters, and a name with an unclosed bracket has no steps. -/
structure Pair.WellFormed (mode : KeyMode) (pair : Pair) : Prop where
  named : IsBaseName mode pair.base
  bracketed : ∀ name, Segment.key name ∈ pair.segments → IsBracketName name
  shallow : pair.segments.length ≤ Key.maxNesting
  plain : '[' ∈ pair.base.toList → pair.segments = []

/-! ### Pairs -/

/-- A base name that is not empty becomes a name of a parameter. -/
theorem isBaseName_rename {base : List Char} (h : base ≠ []) :
    IsBaseName mode (String.ofList (mode.rename base)) := by
  refine ⟨fun hempty => h ?_, ?_⟩
  · exact List.map_eq_nil_iff.1 (String.ofList_eq_empty_iff.1 hempty)
  · rintro rfl
    rw [String.toList_ofList]
    exact KeyMode.not_mem_rename_flattened base

/-- Every pair that counts writes to a possible place. -/
theorem wellFormed_of_pair? {piece : List Char} (h : pair? mode piece = some pair) :
    pair.WellFormed mode := by
  rw [pair?] at h
  split at h
  · nomatch h
  simp only at h
  split at h
  · nomatch h
  next base segments hsplit =>
  split at h
  · nomatch h
  next hbase =>
  cases h
  obtain ⟨hlength, hnames, hplain⟩ := Key.split?_eq_some hsplit
  refine ⟨isBaseName_rename fun hnil => hbase (List.isEmpty_iff.2 hnil), hnames, hlength, ?_⟩
  intro hopen
  rw [String.toList_ofList] at hopen
  obtain ⟨c, hc, hrename⟩ := List.mem_map.1 hopen
  rw [KeyMode.renameChar_eq_bracket_iff] at hrename
  exact hplain (hrename ▸ hc)

theorem wellFormed_of_mem_pairs {text : String} (h : pair ∈ pairs mode text) :
    pair.WellFormed mode := by
  obtain ⟨piece, -, hpair⟩ := List.mem_filterMap.1 h
  exact wellFormed_of_pair? hpair

/-! ### Writing pairs -/

theorem WellFormed.write (h : WellFormed mode parameters) (hpair : pair.WellFormed mode) :
    WellFormed mode (write parameters pair) := by
  refine ⟨Keyed.nodup_keys_update _ _ _ h.distinct, ?_, ?_, ?_⟩
  · intro name hname
    rcases Keyed.mem_keys_update_iff.1 hname with rfl | hold
    · exact hpair.named
    · exact h.named name hold
  · exact Keyed.forall_mem_update h.shaped
      (Parameter.Shaped.assign pair.text hpair.bracketed Parameter.shaped_blank)
      fun value hvalue => Parameter.Shaped.assign pair.text hpair.bracketed hvalue
  · refine Keyed.forall_mem_update h.shallow ?_ ?_
    · intro leaf hleaf
      rw [Parameter.leaves_assign_blank, List.mem_singleton] at hleaf
      exact hleaf ▸ hpair.shallow
    · intro value hvalue leaf hleaf
      rcases Parameter.mem_leaves_assign hleaf with rfl | hold
      · exact hpair.shallow
      · exact hvalue leaf hold

/-- A pair without steps replaces what its name holds by its text. -/
theorem bracketsHoldTexts_write (h : BracketsHoldTexts parameters) (hpair : pair.WellFormed mode) :
    BracketsHoldTexts (write parameters pair) := by
  have hwritten : ∀ value, '[' ∈ pair.base.toList →
      ∃ text, Parameter.assign pair.text pair.segments value = .scalar text := by
    intro value hopen
    rw [hpair.plain hopen]
    exact ⟨pair.text, rfl⟩
  exact Keyed.forall_mem_update h (hwritten .blank) fun value _ => hwritten value

theorem wellFormed_foldl_write (pairs : List Pair) (hpairs : ∀ pair ∈ pairs, pair.WellFormed mode)
    (h : WellFormed mode parameters) (hbrackets : BracketsHoldTexts parameters) :
    WellFormed mode (pairs.foldl QueryText.write parameters) ∧
      BracketsHoldTexts (pairs.foldl QueryText.write parameters) := by
  induction pairs generalizing parameters with
  | nil => exact ⟨h, hbrackets⟩
  | cons pair rest ih =>
    obtain ⟨hfirst, hrest⟩ := List.forall_mem_cons.1 hpairs
    exact ih hrest (h.write hfirst) (bracketsHoldTexts_write hbrackets hfirst)

theorem wellFormed_nil : WellFormed mode [] where
  distinct := List.nodup_nil
  named _ hname := absurd hname List.not_mem_nil
  shaped _ hentry := absurd hentry List.not_mem_nil
  shallow _ hentry := absurd hentry List.not_mem_nil

/-- The parameters of any query text are well formed: their names are distinct, not empty, and if
flattened without dots and blanks; they hold no empty list or map, and below them every name can
stand between brackets, every list item holds one text, and no text is below more than `maxNesting`
steps. A parameter whose name has an unclosed bracket is a text. -/
theorem wellFormed_parse (mode : KeyMode) (text : String) :
    WellFormed mode (parse mode text) ∧ BracketsHoldTexts (parse mode text) :=
  wellFormed_foldl_write _ (fun _ hpair => wellFormed_of_mem_pairs hpair) wellFormed_nil
    fun _ hentry => absurd hentry List.not_mem_nil

end QueryText

end AttributeFilter
