import AttributeFilter.Parameter.Key
import Mathlib.Data.List.Basic
import Mathlib.Data.List.TakeWhile

/-!
# The groups of a name

Every name falls apart in one way only: a base without opening bracket, groups in brackets one after
the other, and a tail at whose front there is no further group, because it does not open a bracket
or does not close it. The first closing bracket ends a group, whatever stands before it. How a name
is read depends on the number of its groups and on whether the tail opens a bracket.

## Main definitions

* `Key.bracketed`: texts in brackets, one after the other.
* `Key.Parts`, `Key.Parts.MakeUp`: the parts of a name.
* `Key.Parts.reading`: what a name of these parts is read as.

## Main results

* `Key.prefix_of_bracketed`: there are no more groups at the front of a text than those up to a tail
  without one.
* `Key.exists_makeUp`, `Key.Parts.MakeUp.unique`: every name has parts, and one way only.
* `Key.readGroups_bracketed`: what the groups at the front of a text amount to.
* `Key.split?_makeUp`: a name is read by its parts.
-/

namespace AttributeFilter.Key

open Parameter (Segment)

/-- Texts in brackets, one after the other. -/
def bracketed (inners : List (List Char)) : List Char :=
  inners.flatMap fun inner => '[' :: (inner ++ [']'])

/-- A base, the insides of groups, and what follows the last group. -/
structure Parts where
  base : List Char
  inners : List (List Char)
  tail : List Char
  deriving DecidableEq, Repr

/-- The texts are insides of groups: none of them closes a bracket. -/
def Closed (inners : List (List Char)) : Prop :=
  ∀ inner ∈ inners, ']' ∉ inner

/-- There is no group at the front of the text: if it opens a bracket, it never closes it. -/
def Groupless (text : List Char) : Prop :=
  ∀ after, text = '[' :: after → ']' ∉ after

/-- The parts make up the name: the base is all of it before the first opening bracket, and there
are as many groups behind it as there can be. -/
structure Parts.MakeUp (parts : Parts) (name : List Char) : Prop where
  whole : name = parts.base ++ (bracketed parts.inners ++ parts.tail)
  base : '[' ∉ parts.base
  behind : ∀ c ∈ (bracketed parts.inners ++ parts.tail).head?, c = '['
  closed : Closed parts.inners
  tail : Groupless parts.tail
  maximal : ∀ inners tail, Closed inners → name = parts.base ++ (bracketed inners ++ tail) →
    inners.length ≤ parts.inners.length

/-- What a name of these parts is read as: nothing if there are too many groups; all of it without
steps if no bracket is opened, or one more than are closed; and else the base with a step for each
group. -/
def Parts.reading (parts : Parts) (name : List Char) : Option (List Char × List Segment) :=
  if maxNesting < parts.inners.length then none
  else if '[' ∉ name ∨ parts.tail.head? = some '[' then some (name, [])
  else some (parts.base, parts.inners.map fun inner =>
    if inner = [] then .append else .key (String.ofList inner))

variable {name base behind tail tail' : List Char} {inners inners' : List (List Char)} {parts : Parts}

/-! ### Groups -/

theorem bracketed_cons (inner : List Char) (inners : List (List Char)) (tail : List Char) :
    bracketed (inner :: inners) ++ tail = '[' :: (inner ++ ']' :: (bracketed inners ++ tail)) := by
  simp [bracketed]

theorem closed_cons_iff {inner : List Char} :
    Closed (inner :: inners) ↔ ']' ∉ inner ∧ Closed inners :=
  List.forall_mem_cons

/-- A group ends at its first closing bracket. -/
theorem eq_of_bracketed_cons {inner inner' : List Char} (h : ']' ∉ inner) (h' : ']' ∉ inner')
    (heq : bracketed (inner :: inners) ++ tail = bracketed (inner' :: inners') ++ tail') :
    inner = inner' ∧ bracketed inners ++ tail = bracketed inners' ++ tail' := by
  rw [bracketed_cons, bracketed_cons, List.cons.injEq] at heq
  have hcut := Text.cut?_append_of_notMem h (bracketed inners ++ tail)
  rw [heq.2, Text.cut?_append_of_notMem h', Option.some.injEq, Prod.mk.injEq] at hcut
  exact ⟨hcut.1.symm, hcut.2.symm⟩

/-- There are no more groups at the front of a text than those up to a tail without one. -/
theorem prefix_of_bracketed (hclosed : Closed inners) (hclosed' : Closed inners')
    (htail : Groupless tail) (heq : bracketed inners' ++ tail' = bracketed inners ++ tail) :
    inners' <+: inners := by
  induction inners' generalizing inners with
  | nil => exact List.nil_prefix
  | cons inner' rest' ih =>
    rw [closed_cons_iff] at hclosed'
    cases inners with
    | nil =>
      rw [bracketed_cons] at heq
      exact absurd (List.mem_append_right _ List.mem_cons_self) (htail _ heq.symm)
    | cons inner rest =>
      rw [closed_cons_iff] at hclosed
      obtain ⟨rfl, hrest⟩ := eq_of_bracketed_cons hclosed'.1 hclosed.1 heq
      exact List.cons_prefix_cons.2 ⟨rfl, ih hclosed.2 hclosed'.2 hrest⟩

/-- Every text has groups at its front, if only none, up to a tail without one. -/
theorem exists_bracketed (text : List Char) :
    ∃ inners tail, text = bracketed inners ++ tail ∧ Closed inners ∧ Groupless tail := by
  induction hlength : text.length using Nat.strong_induction_on generalizing text with
  | _ length ih =>
    by_cases hgroupless : Groupless text
    · exact ⟨[], text, rfl, List.forall_mem_nil _, hgroupless⟩
    · simp only [Groupless, not_forall, not_not] at hgroupless
      obtain ⟨behind, rfl, hclose⟩ := hgroupless
      obtain ⟨⟨inner, after⟩, hcut⟩ :=
        Option.ne_none_iff_exists'.1 (mt (Text.cut?_eq_none_iff ']' behind).1 (not_not.2 hclose))
      obtain ⟨rfl, hinner⟩ := Text.cut?_eq_some hcut
      have hshorter : after.length < length := by
        rw [← hlength, List.length_cons, List.length_append, List.length_cons]
        omega
      obtain ⟨inners, tail, rfl, hclosed, htail⟩ := ih _ hshorter after rfl
      exact ⟨inner :: inners, tail, (bracketed_cons inner inners tail).symm,
        closed_cons_iff.2 ⟨hinner, hclosed⟩, htail⟩

/-! ### Parts -/

/-- Where a text without opening bracket ends and one begins that is empty or opens a bracket, the
bracket is the first. -/
theorem span_append (hbase : '[' ∉ base) (hbehind : ∀ c ∈ behind.head?, c = '[') :
    (base ++ behind).takeWhile (· ≠ '[') = base ∧
      (base ++ behind).dropWhile (· ≠ '[') = behind := by
  have hplain : ∀ c ∈ base, decide (c ≠ '[') = true :=
    fun c hc => decide_eq_true fun heq => hbase (heq ▸ hc)
  have hopen : behind.takeWhile (· ≠ '[') = [] ∧ behind.dropWhile (· ≠ '[') = behind := by
    cases behind with
    | nil => exact ⟨rfl, rfl⟩
    | cons c rest =>
      obtain rfl : c = '[' := hbehind c rfl
      exact ⟨rfl, rfl⟩
  rw [List.takeWhile_append_of_pos hplain, List.dropWhile_append_of_pos hplain, hopen.1, hopen.2]
  exact ⟨List.append_nil base, rfl⟩

/-- A name has parts. -/
theorem exists_makeUp (name : List Char) : ∃ parts : Parts, parts.MakeUp name := by
  obtain ⟨inners, tail, hsplit, hclosed, htail⟩ := exists_bracketed (name.dropWhile (· ≠ '['))
  have hwhole : name = name.takeWhile (· ≠ '[') ++ (bracketed inners ++ tail) := by
    rw [← hsplit, List.takeWhile_append_dropWhile]
  refine ⟨⟨name.takeWhile (· ≠ '['), inners, tail⟩, hwhole, ?_, ?_, hclosed, htail, ?_⟩
  · intro hopen
    simpa using List.mem_takeWhile_imp hopen
  · intro c hc
    have hnot := List.head?_dropWhile_not (· ≠ '[') name
    rw [hsplit, Option.mem_def.1 hc] at hnot
    simpa using hnot
  · intro inners' tail' hclosed' hwhole'
    have heq := List.append_cancel_left (hwhole'.symm.trans hwhole)
    exact (prefix_of_bracketed hclosed hclosed' htail heq).length_le

/-- The parts of a name are told apart by their brackets. -/
theorem Parts.MakeUp.unique {other : Parts} (h : parts.MakeUp name) (hother : other.MakeUp name) :
    other = parts := by
  obtain ⟨base, inners, tail⟩ := parts
  obtain ⟨base', inners', tail'⟩ := other
  have hspan := span_append h.base h.behind
  have hspan' := span_append hother.base hother.behind
  rw [← h.whole] at hspan
  rw [← hother.whole] at hspan'
  obtain rfl : base = base' := hspan.1.symm.trans hspan'.1
  have heq : bracketed inners ++ tail = bracketed inners' ++ tail' :=
    hspan.2.symm.trans hspan'.2
  have hprefix := prefix_of_bracketed hother.closed h.closed hother.tail heq
  have hprefix' := prefix_of_bracketed h.closed hother.closed h.tail heq.symm
  obtain rfl : inners = inners' := hprefix.eq_of_length_le hprefix'.length_le
  rw [List.append_cancel_left heq]

/-! ### Reading -/

/-- The groups at the front of a text, up to a tail without one, amount to their steps; but the tail
may open a bracket, and before it is reached there may be too many groups. -/
theorem readGroups_bracketed (hclosed : Closed inners) (htail : Groupless tail) (allowed : Nat) :
    readGroups allowed (bracketed inners ++ tail) =
      if allowed < inners.length then .tooDeep
      else if tail.head? = some '[' then .unclosed
      else .steps (inners.map segmentOf) := by
  induction inners generalizing allowed with
  | nil =>
    change readGroups allowed tail = _
    rw [List.length_nil, if_neg (Nat.not_lt_zero allowed)]
    split
    · next hopen =>
      obtain ⟨after, rfl⟩ := List.head?_eq_some_iff.1 hopen
      rw [readGroups, (Text.cut?_eq_none_iff ']' after).2 (htail after rfl)]
    · next hopen =>
      rw [readGroups]
      · rfl
      · rintro after rfl
        exact hopen rfl
  | cons inner rest ih =>
    rw [closed_cons_iff] at hclosed
    rw [bracketed_cons, readGroups, Text.cut?_append_of_notMem hclosed.1]
    cases allowed with
    | zero => exact (if_pos (Nat.zero_lt_succ _)).symm
    | succ allowed =>
      simp only [ih hclosed.2, List.length_cons, Nat.add_lt_add_iff_right, List.map_cons]
      split_ifs <;> rfl

/-- Base name and steps of a text whose first opening bracket, if any, is where it is divided. -/
theorem split?_append (hbase : '[' ∉ base) (hbehind : ∀ c ∈ behind.head?, c = '[') :
    split? (base ++ behind) = match readGroups maxNesting behind with
      | .steps segments => some (base, segments)
      | .unclosed => some (base ++ behind, [])
      | .tooDeep => none := by
  obtain ⟨htake, hdrop⟩ := span_append hbase hbehind
  cases hgroups : readGroups maxNesting behind <;> simp only [split?, htake, hdrop, hgroups]

/-- A name that opens no bracket has no groups and no tail. -/
theorem Parts.MakeUp.eq_of_notMem (h : parts.MakeUp name) (hopen : '[' ∉ name) :
    parts = ⟨name, [], []⟩ := by
  refine Parts.MakeUp.unique ⟨?_, hopen, ?_, List.forall_mem_nil _, ?_, ?_⟩ h
  · exact (List.append_nil name).symm
  · exact fun c hc => nomatch hc
  · exact fun after hafter => nomatch hafter
  · intro inners tail _ hwhole
    cases inners with
    | nil => exact Nat.le_refl 0
    | cons inner rest =>
      refine absurd ?_ hopen
      rw [hwhole, bracketed_cons]
      exact List.mem_append_right _ List.mem_cons_self

theorem Parts.MakeUp.split?_eq (h : parts.MakeUp name) : split? name = parts.reading name := by
  have hsplit := split?_append h.base h.behind
  rw [← h.whole, readGroups_bracketed h.closed h.tail] at hsplit
  have hsteps : segmentOf = fun inner =>
      if inner = [] then .append else .key (String.ofList inner) := by
    funext inner
    simp only [segmentOf, List.isEmpty_iff]
  rw [hsplit, Parts.reading, ← hsteps]
  by_cases hopen : '[' ∈ name
  · simp only [hopen, not_true_eq_false, false_or]
    split_ifs <;> rfl
  · obtain rfl := h.eq_of_notMem hopen
    simp [hopen]

/-- **The grammar of names.** Every name is made up of one base, one list of groups and one tail, and
is read as these say. -/
theorem split?_makeUp (name : List Char) :
    ∃ parts : Parts, (∀ other : Parts, other.MakeUp name ↔ other = parts) ∧
      split? name = parts.reading name := by
  obtain ⟨parts, hparts⟩ := exists_makeUp name
  refine ⟨parts, fun other => ⟨hparts.unique, ?_⟩, hparts.split?_eq⟩
  rintro rfl
  exact hparts

/-- A closing bracket ends a group though another one was opened in it, and a stray one ends the
groups. -/
example : split? "a[b[c][]]d[e]".toList = some (['a'], [.key "b[c", .append]) := by
  decide

/-- Groups do not count if a bracket remains open behind them. -/
example : split? "a[b][c".toList = some ("a[b][c".toList, []) := by
  decide

end AttributeFilter.Key
