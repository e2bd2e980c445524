import AttributeFilter.Proofs.Parameter.Groups
import AttributeFilter.Proofs.Parameter.Percent
import AttributeFilter.Proofs.Parameter.WellFormed
import Mathlib.Data.List.Basic

/-!
# Rendering parameters and reading them back

Well-formed parameters can be sent as a query text that gives them again. Each text becomes a pair
of its own, in the order of the texts: the steps to it become groups in brackets, and of all the
rest every byte is escaped. So the signs that take a query text apart occur only where the rendering
put them, each pair is read back as it was, and the pairs write the trees anew.

## Main definitions

* `QueryText.renderName`, `QueryText.renderPair`: a pair as a piece of query text.
* `QueryText.pairsOf`, `QueryText.render`: the pairs of parameters, and the query text of them.

## Main results

* `Key.split?_append_groups`: a base name with groups is taken apart into both.
* `QueryText.pair?_renderPair`: a rendered pair is read back.
* `QueryText.foldl_write_pairsOf`: the pairs of parameters write the parameters.
* `QueryText.parse_render`: reading undoes rendering.
-/

namespace AttributeFilter

open Parameter (Segment IsBracketName)

namespace Key

/-- What stands between the brackets of a step. -/
def label : Segment → String
  | .append => ""
  | .key name => name

/-- Steps as groups in brackets. -/
def groups (segments : List Segment) : List Char :=
  segments.flatMap fun segment => '[' :: ((label segment).toList ++ [']'])

theorem segmentOf_label {segment : Segment}
    (h : ∀ name, segment = .key name → IsBracketName name) :
    segmentOf (label segment).toList = segment := by
  cases segment with
  | append => rfl
  | key name =>
    have hne : name.toList ≠ [] := fun hnil => (h name rfl).1 (String.toList_eq_nil_iff.1 hnil)
    rw [label, segmentOf, if_neg (by rwa [List.isEmpty_iff]), String.ofList_toList]

theorem close_notMem_label {segment : Segment}
    (h : ∀ name, segment = .key name → IsBracketName name) : ']' ∉ (label segment).toList := by
  cases segment with
  | append => exact List.not_mem_nil
  | key name => exact (h name rfl).2

theorem groups_eq_bracketed (segments : List Segment) :
    groups segments = bracketed (segments.map fun segment => (label segment).toList) := by
  rw [groups, bracketed, List.flatMap_map]

/-- Groups are read back, if there are not too many. -/
theorem readGroups_groups {segments : List Segment}
    (h : ∀ name, .key name ∈ segments → IsBracketName name) {allowed : Nat}
    (hlength : segments.length ≤ allowed) :
    readGroups allowed (groups segments) = .steps segments := by
  have hsegment : ∀ segment ∈ segments, ∀ name, segment = .key name → IsBracketName name :=
    fun segment hmem name hname => h name (hname ▸ hmem)
  have hclosed : Closed (segments.map fun segment => (label segment).toList) :=
    List.forall_mem_map.2 fun segment hmem => close_notMem_label (hsegment segment hmem)
  have htail : Groupless [] := fun _ hopen => nomatch hopen
  have hread := readGroups_bracketed hclosed htail allowed
  have hsame : ∀ segment ∈ segments, (segmentOf ∘ fun segment => (label segment).toList) segment =
      segment := fun segment hmem => segmentOf_label (hsegment segment hmem)
  rw [List.append_nil, List.length_map, if_neg (Nat.not_lt.2 hlength), List.map_map,
    List.map_congr_left hsame, List.map_id', ← groups_eq_bracketed] at hread
  exact hread

/-- A base name with groups is taken apart into both. -/
theorem split?_append_groups {base : List Char} {segments : List Segment} (hbase : '[' ∉ base)
    (h : ∀ name, .key name ∈ segments → IsBracketName name)
    (hlength : segments.length ≤ maxNesting) :
    split? (base ++ groups segments) = some (base, segments) := by
  have hopen : ∀ c ∈ (groups segments).head?, c = '[' := by
    cases segments with
    | nil => exact fun c hc => nomatch hc
    | cons segment rest => exact fun c hc => (Option.some.inj hc).symm
  rw [split?_append hbase hopen, readGroups_groups h hlength]

end Key

namespace QueryText

variable {mode : KeyMode} {parameters : Parameters} {pair : Pair}

/-- The name of a pair as a piece of query text: what is between brackets, and all before them, is
escaped. -/
def renderName (pair : Pair) : List Char :=
  Percent.encode pair.base ++
    pair.segments.flatMap fun segment => '[' :: (Percent.encode (Key.label segment) ++ [']'])

/-- A pair as a piece of query text. -/
def renderPair (pair : Pair) : List Char :=
  renderName pair ++ '=' :: Percent.encode pair.text

/-- The pairs of parameters: one for each text, in order. -/
def pairsOf (parameters : Parameters) : List Pair :=
  parameters.flatMap fun entry => entry.2.leaves.map fun leaf =>
    { base := entry.1, segments := leaf.steps, text := leaf.text }

def render (parameters : Parameters) : String :=
  String.ofList (['&'].intercalate ((pairsOf parameters).map renderPair))

example : render [("sku", .list [.scalar "A+"])] = "%73%6B%75[]=%41%2B" := by decide

/-! ### Signs of a rendered pair -/

theorem mem_renderName {c : Char} (h : c ∈ renderName pair) :
    c ∈ '[' :: ']' :: Percent.escapeSigns := by
  rcases List.mem_append.1 h with hbase | hgroups
  · exact List.mem_cons_of_mem _ (List.mem_cons_of_mem _
      (Percent.mem_escapeSigns_of_mem_encode hbase))
  · obtain ⟨segment, -, hc⟩ := List.mem_flatMap.1 hgroups
    rcases List.mem_cons.1 hc with rfl | hc
    · exact List.mem_cons_self
    rcases List.mem_append.1 hc with hlabel | hclose
    · exact List.mem_cons_of_mem _ (List.mem_cons_of_mem _
        (Percent.mem_escapeSigns_of_mem_encode hlabel))
    · exact List.mem_cons_of_mem _ (List.mem_cons.2 (.inl (List.mem_singleton.1 hclose)))

theorem mem_renderPair {c : Char} (h : c ∈ renderPair pair) :
    c ∈ '=' :: '[' :: ']' :: Percent.escapeSigns := by
  rcases List.mem_append.1 h with hname | hvalue
  · exact List.mem_cons_of_mem _ (mem_renderName hname)
  rcases List.mem_cons.1 hvalue with rfl | htext
  · exact List.mem_cons_self
  · have hsign := Percent.mem_escapeSigns_of_mem_encode htext
    exact List.mem_cons_of_mem _ (List.mem_cons_of_mem _ (List.mem_cons_of_mem _ hsign))

/-! ### Reading a rendered pair -/

theorem renderPair_ne_nil (pair : Pair) : renderPair pair ≠ [] :=
  List.append_ne_nil_of_right_ne_nil _ (List.cons_ne_nil _ _)

theorem spells_renderName (pair : Pair) :
    Percent.Spells (renderName pair) (pair.base.toList ++ Key.groups pair.segments) := by
  refine (Percent.Spells.encode pair.base).append ?_
  generalize pair.segments = segments
  have hopen : Percent.Spells ['['] ['['] := .of_plain rfl (by decide) (by decide)
  have hclose : Percent.Spells [']'] [']'] := .of_plain rfl (by decide) (by decide)
  induction segments with
  | nil => exact .nil
  | cons segment rest ih =>
    rw [List.flatMap_cons, Key.groups, List.flatMap_cons]
    exact (hopen.append ((Percent.Spells.encode (Key.label segment)).append hclose)).append ih

theorem rename_of_isBaseName {name : String} (h : IsBaseName mode name) :
    mode.rename name.toList = name.toList := by
  have hkeep : ∀ c ∈ name.toList, mode.renameChar c = c := by
    intro c hc
    cases mode with
    | preserved => rfl
    | flattened =>
      obtain ⟨hdot, hblank⟩ := h.2 rfl
      rw [KeyMode.renameChar, if_neg]
      rintro (rfl | rfl)
      · exact hdot hc
      · exact hblank hc
  rw [KeyMode.rename, List.map_congr_left hkeep, List.map_id']

/-- A rendered pair is read with its base name as the mode has it. Without a base name it counts for
nothing. -/
theorem pair?_renderPair_eq (hplain : '[' ∉ pair.base.toList)
    (hbracketed : ∀ name, Segment.key name ∈ pair.segments → IsBracketName name)
    (hshallow : pair.segments.length ≤ Key.maxNesting) :
    pair? mode (renderPair pair) =
      if pair.base = "" then none
      else some { pair with base := String.ofList (mode.rename pair.base.toList) } := by
  have hcut : Text.cut? '=' (renderPair pair) = some (renderName pair, Percent.encode pair.text) :=
    Text.cut?_append_of_notMem (fun hmem => absurd (mem_renderName hmem) (by decide)) _
  have hname : Percent.decode (renderName pair) =
      String.ofList (pair.base.toList ++ Key.groups pair.segments) :=
    (spells_renderName pair).decode_eq
  have htext : Percent.decode (Percent.encode pair.text) = pair.text := by
    rw [(Percent.Spells.encode pair.text).decode_eq, String.ofList_toList]
  have hsplit := Key.split?_append_groups hplain hbracketed hshallow
  have hbase : pair.base.toList.isEmpty = true ↔ pair.base = "" := by
    rw [List.isEmpty_iff, String.toList_eq_nil_iff]
  have hne := renderPair_ne_nil pair
  rw [pair?, if_neg (by rwa [List.isEmpty_iff]), hcut]
  simp only [Option.getD_some, hname, htext, String.toList_ofList, hsplit, hbase]

theorem pair?_renderPair (h : pair.WellFormed mode) (hplain : '[' ∉ pair.base.toList) :
    pair? mode (renderPair pair) = some pair := by
  rw [pair?_renderPair_eq hplain h.bracketed h.shallow, if_neg h.named.1,
    rename_of_isBaseName h.named, String.ofList_toList]

theorem intercalate_cons_eq_append (separator first : List Char) (others : List (List Char)) :
    ∃ more, separator.intercalate (first :: others) = first ++ more := by
  cases others with
  | nil => exact ⟨[], by rw [List.intercalate_singleton, List.append_nil]⟩
  | cons second rest => exact ⟨_, by rw [List.intercalate_cons_cons, List.append_assoc]⟩

/-- A query text of rendered pairs falls into these pairs again. -/
theorem pieces_intercalate {rendered : List Pair} (h : rendered ≠ []) :
    pieces (String.ofList (['&'].intercalate (rendered.map renderPair))) =
      rendered.map renderPair := by
  have hfree : ∀ piece ∈ rendered.map renderPair, '&' ∉ piece := by
    intro piece hpiece hmem
    obtain ⟨pair, -, rfl⟩ := List.mem_map.1 hpiece
    exact absurd (mem_renderPair hmem) (by decide)
  have hfront : Text.trimStart (· = '?') (['&'].intercalate (rendered.map renderPair)) =
      ['&'].intercalate (rendered.map renderPair) := by
    obtain ⟨pair, rest, rfl⟩ := List.exists_cons_of_ne_nil h
    obtain ⟨more, hmore⟩ := intercalate_cons_eq_append ['&'] (renderPair pair)
      (rest.map renderPair)
    obtain ⟨c, tail, hpair⟩ := List.exists_cons_of_ne_nil (renderPair_ne_nil pair)
    have hc : c ∈ '=' :: '[' :: ']' :: Percent.escapeSigns :=
      mem_renderPair (hpair ▸ List.mem_cons_self)
    have hquestion : c ≠ '?' := by
      rintro rfl
      exact absurd hc (by decide)
    rw [List.map_cons, hmore, hpair, List.cons_append, Text.trimStart]
    exact List.dropWhile_cons_of_neg (by rwa [decide_eq_true_iff])
  rw [pieces, String.toList_ofList, hfront,
    List.splitOn_intercalate _ hfree (mt List.map_eq_nil_iff.1 h)]

/-- The pairs of well-formed parameters are read back from their query text. -/
theorem pairs_render (hpairs : ∀ pair ∈ pairsOf parameters, pair.WellFormed mode)
    (hplain : ∀ pair ∈ pairsOf parameters, '[' ∉ pair.base.toList) :
    pairs mode (render parameters) = pairsOf parameters := by
  rcases eq_or_ne (pairsOf parameters) [] with hnil | hne
  · rw [render, hnil]
    rfl
  · have hread : ∀ pair ∈ pairsOf parameters, (pair? mode ∘ renderPair) pair = some pair :=
      fun pair hpair => pair?_renderPair (hpairs pair hpair) (hplain pair hpair)
    rw [pairs, render, pieces_intercalate hne, List.filterMap_map, List.filterMap_congr hread,
      List.filterMap_some]

/-! ### Writing the pairs of parameters -/

/-- A pair as a text with the steps to it, the name of the parameter being the first. -/
def Pair.leaf (pair : Pair) : Parameter.Leaf :=
  { steps := .key pair.base :: pair.segments, text := pair.text }

theorem map_foldl_write (pairs : List Pair) (known : Parameters) :
    Parameter.map (pairs.foldl write known) =
      Parameter.writeAll (pairs.map Pair.leaf) (.map known) := by
  induction pairs generalizing known with
  | nil => rfl
  | cons pair rest ih => exact ih (write known pair)

theorem map_leaf_pairsOf (parameters : Parameters) :
    (pairsOf parameters).map Pair.leaf = Parameter.leavesOfEntries parameters := by
  rw [Parameter.leavesOfEntries_eq_flatMap, pairsOf, List.map_flatMap]
  simp only [List.map_map]
  rfl

theorem foldl_write_pairsOf (distinct : (Keyed.keys parameters).Nodup)
    (shaped : ∀ entry ∈ parameters, entry.2.Shaped) :
    (pairsOf parameters).foldl write [] = parameters := by
  have hmap : Parameter.map ((pairsOf parameters).foldl write []) = .map parameters := by
    rw [map_foldl_write, map_leaf_pairsOf, Parameter.writeAll_leavesOfEntries
      (fun entry hentry => (shaped entry hentry).leaves_ne_nil)
      (fun entry hentry => Parameter.writeAll_leaves (shaped entry hentry)) [] distinct,
      List.nil_append]
  exact Parameter.map.inj hmap

/-! ### Reading undoes rendering -/

/-- The pairs of well-formed parameters write to possible places. -/
theorem WellFormed.wellFormed_of_mem_pairsOf (h : WellFormed mode parameters)
    (hplain : ∀ name ∈ Keyed.keys parameters, '[' ∉ name.toList)
    (hpair : pair ∈ pairsOf parameters) :
    pair.WellFormed mode ∧ '[' ∉ pair.base.toList := by
  obtain ⟨entry, hentry, hmem⟩ := List.mem_flatMap.1 hpair
  obtain ⟨leaf, hleaf, rfl⟩ := List.mem_map.1 hmem
  have hname := Keyed.mem_keys_of_mem hentry
  have hopen := hplain entry.1 hname
  refine ⟨⟨h.named entry.1 hname, ?_, h.shallow entry hentry leaf hleaf, ?_⟩, hopen⟩
  · exact fun name hstep => (h.shaped entry hentry).isBracketName hleaf hstep
  · exact fun hmem => absurd hmem hopen

/-- Reading undoes rendering: well-formed parameters whose names have no opening bracket are what
their query text gives, with all their entries in the same order. -/
theorem parse_render (h : WellFormed mode parameters)
    (hplain : ∀ name ∈ Keyed.keys parameters, '[' ∉ name.toList) :
    parse mode (render parameters) = parameters := by
  have hpairs := fun pair (hpair : pair ∈ pairsOf parameters) =>
    h.wellFormed_of_mem_pairsOf hplain hpair
  rw [parse, pairs_render (fun pair hpair => (hpairs pair hpair).1) fun pair hpair =>
    (hpairs pair hpair).2]
  exact foldl_write_pairsOf h.distinct h.shaped

/-- A search with an order, a list of unlike values, and signs that need escapes. -/
def sampleSearch : Parameters :=
  [("order", .map [("price", .scalar "asc"), ("brand.name", .scalar "")]),
    ("colour", .list [.scalar "blue & green", .map [("é=[", .list [.scalar "+"])]]),
    ("q?", .scalar "100 %")]

theorem wellFormed_sampleSearch : WellFormed .flattened sampleSearch where
  distinct := by decide
  named := by decide
  shaped := by
    have hnested : Parameter.Shaped (.map [("é=[", .list [.scalar "+"])]) := by
      refine .map (by decide) (by decide) (by decide) ?_
      simpa using .list (by decide) (by decide) (by simpa using .scalar _)
    simp only [sampleSearch, List.forall_mem_cons]
    refine ⟨.map (by decide) (by decide) (by decide) ?_, .list (by decide) (by decide) ?_,
      .scalar _, ?_⟩
    · simpa using ⟨.scalar _, .scalar _⟩
    · simpa using ⟨.scalar _, hnested⟩
    · simp
  shallow := by decide

theorem parse_render_sampleSearch :
    WellFormed .flattened sampleSearch ∧
      (∀ name ∈ Keyed.keys sampleSearch, '[' ∉ name.toList) ∧
        parse .flattened (render sampleSearch) = sampleSearch :=
  ⟨wellFormed_sampleSearch, by decide, parse_render wellFormed_sampleSearch (by decide)⟩

end QueryText

end AttributeFilter
