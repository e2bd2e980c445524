import AttributeFilter.Query.StableSort
import Mathlib.Data.List.Induction
import Mathlib.Data.List.Nodup

/-!
# What a stable sort gives

Sorting is specified here by pairs. An element belongs in front of another one if it compares as
less, or if the two compare as equal and it stood in front before. Where the comparison is
transitive on the elements, sorting puts every element in front of those it belongs in front of, and
no other rearrangement does. That sorting and selecting can be exchanged follows from it.

## Main definitions

* `StableSort.TransOn`: a comparison is transitive on some elements.
* `StableSort.Before`: an element belongs in front of another one.

## Main results

* `StableSort.sort_congr`: comparisons that agree on the elements sort them alike.
* `StableSort.pairwise_sort`: sorting puts elements where they belong.
* `StableSort.Before.pair_sublist_sort`: the same for one pair.
* `StableSort.eq_sort_of_pairwise`: nothing else does.
* `StableSort.sort_filter`: selecting from sorted elements is sorting the selected ones.
-/

namespace AttributeFilter.StableSort

variable {α : Type} {order : α → α → Ordering} {elements : List α}

def TransOn (order : α → α → Ordering) (elements : List α) : Prop :=
  ∀ a ∈ elements, ∀ b ∈ elements, ∀ c ∈ elements,
    order a b ≠ .gt → order b c ≠ .gt → order a c ≠ .gt

/-- An element belongs in front of another one: it compares as less, or it compares as equal and
stands in front already. -/
def Before (order : α → α → Ordering) (elements : List α) (a b : α) : Prop :=
  order a b = .lt ∨ order a b = .eq ∧ [a, b].Sublist elements

theorem TransOn.subset {others : List α} (h : TransOn order elements) (hsub : others ⊆ elements) :
    TransOn order others :=
  fun a ha b hb c hc => h a (hsub ha) b (hsub hb) c (hsub hc)

theorem Before.ne_gt {a b : α} (h : Before order elements a b) : order a b ≠ .gt := by
  rcases h with h | ⟨h, -⟩ <;> simp [h]

theorem Before.sublist {others : List α} (hsub : elements.Sublist others) {a b : α}
    (h : Before order elements a b) : Before order others a b :=
  h.imp_right fun ⟨heq, hpair⟩ => ⟨heq, hpair.trans hsub⟩

/-! ### Comparisons that agree -/

theorem settle_congr {other : α → α → Ordering} {element : α} {placed : List α}
    (h : ∀ last ∈ placed, order element last = other element last) :
    settle order element placed = settle other element placed := by
  induction placed with
  | nil => rfl
  | cons last before ih =>
    obtain ⟨hlast, hbefore⟩ := List.forall_mem_cons.1 h
    rw [settle, settle, hlast, ih hbefore]

theorem foldl_settle_congr {other : α → α → Ordering} {rest placed : List α}
    (h : ∀ a ∈ placed ++ rest, ∀ b ∈ placed ++ rest, order a b = other a b) :
    rest.foldl (fun placed element => settle order element placed) placed =
      rest.foldl (fun placed element => settle other element placed) placed := by
  induction rest generalizing placed with
  | nil => rfl
  | cons element rest ih =>
    have hsettle : settle order element placed = settle other element placed :=
      settle_congr fun last hlast =>
        h element (by simp) last (List.mem_append_left _ hlast)
    rw [List.foldl_cons, List.foldl_cons, ← hsettle]
    -- what is placed now are the elements placed before and the one that has settled
    have hsubset : settle order element placed ++ rest ⊆ placed ++ element :: rest := fun a ha => by
      have hperm := ((settle_perm order element placed).append_right rest).trans
        List.perm_middle.symm
      exact hperm.subset ha
    exact ih fun a ha b hb => h a (hsubset ha) b (hsubset hb)

/-- Comparisons that agree on the elements sort them alike. -/
theorem sort_congr {other : α → α → Ordering}
    (h : ∀ a ∈ elements, ∀ b ∈ elements, order a b = other a b) :
    sort order elements = sort other elements := by
  rw [sort, sort, foldl_settle_congr h]

/-! ### Pairs in a list -/

/-- Of two elements that stand in a list without repetition, one stands in front of the other. -/
theorem not_pair_sublist_swap {a b : α} : {elements : List α} → elements.Nodup →
    [a, b].Sublist elements → ¬ [b, a].Sublist elements
  | [], _, h, _ => by simp at h
  | first :: rest, hd, hab, hba => by
    rw [List.nodup_cons] at hd
    -- the first element can only be the first of a pair
    have htail {x y : α} (h : [x, y].Sublist (first :: rest)) (hx : x ≠ first) :
        [x, y].Sublist rest := by
      cases h with
      | cons _ h => exact h
      | cons_cons _ _ => exact absurd rfl hx
    have hsecond {x y : α} (h : [x, y].Sublist (first :: rest)) : y ∈ rest := by
      cases h with
      | cons _ h => exact h.subset (by simp)
      | cons_cons _ h => exact List.singleton_sublist.1 h
    have ha : a ≠ first := fun h => hd.1 (h ▸ hsecond hba)
    have hb : b ≠ first := fun h => hd.1 (h ▸ hsecond hab)
    exact not_pair_sublist_swap hd.2 (htail hab ha) (htail hba hb)

/-- Of two different elements of a list, one stands in front of the other. -/
theorem pair_sublist_or {a b : α} : {elements : List α} → a ∈ elements → b ∈ elements → a ≠ b →
    [a, b].Sublist elements ∨ [b, a].Sublist elements
  | first :: rest, ha, hb, hne => by
    rcases List.mem_cons.1 ha with rfl | harest
    · have hbrest := (List.mem_cons.1 hb).resolve_left (Ne.symm hne)
      exact .inl ((List.singleton_sublist.2 hbrest).cons_cons a)
    · rcases List.mem_cons.1 hb with rfl | hbrest
      · exact .inr ((List.singleton_sublist.2 harest).cons_cons b)
      · exact (pair_sublist_or harest hbrest hne).imp (.cons first) (.cons first)

/-! ### One element more -/

/-- An element settles in front of those that it comes before, counted from the last one on. -/
theorem exists_settle_eq (order : α → α → Ordering) (element : α) : (placed : List α) →
    ∃ after before, placed = after ++ before ∧
      settle order element placed = after ++ element :: before ∧
      (∀ other ∈ after, order element other = .lt) ∧
      ∀ other ∈ before.head?, order element other ≠ .lt
  | [] => ⟨[], [], rfl, rfl, by simp, by simp⟩
  | last :: rest => by
    by_cases hlt : order element last = .lt
    · obtain ⟨after, before, rfl, hsettle, hafter, hbefore⟩ := exists_settle_eq order element rest
      refine ⟨last :: after, before, rfl, ?_, ?_, hbefore⟩
      · rw [settle, if_pos hlt, hsettle]
        rfl
      · exact List.forall_mem_cons.2 ⟨hlt, hafter⟩
    · exact ⟨[], last :: rest, rfl, by rw [settle, if_neg hlt]; rfl, by simp, by simpa using hlt⟩

/-- A further element goes in front of those sorted elements that it comes before, as far as they
stand together at the end. -/
theorem exists_sort_concat (order : α → α → Ordering) (elements : List α) (element : α) :
    ∃ front back, sort order elements = front ++ back ∧
      sort order (elements ++ [element]) = front ++ element :: back ∧
      (∀ other ∈ back, order element other = .lt) ∧
      ∀ other ∈ front.getLast?, order element other ≠ .lt := by
  obtain ⟨after, before, hplaced, hsettle, hafter, hbefore⟩ :=
    exists_settle_eq order element
      (elements.foldl (fun placed element => settle order element placed) [])
  refine ⟨before.reverse, after.reverse, ?_, ?_, ?_, ?_⟩
  · rw [sort, hplaced, List.reverse_append]
  · rw [sort, List.foldl_concat, hsettle]
    simp
  · exact fun other hother => hafter other (List.mem_reverse.1 hother)
  · rwa [List.getLast?_reverse]

variable [Std.OrientedCmp order]

/-- Sorted elements do not come after an element that the last of them does not come after. -/
theorem ne_gt_of_getLast? {front : List α} {element : α}
    (htrans : TransOn order elements) (hmem : element ∈ elements) (hsub : front ⊆ elements)
    (hsorted : front.Pairwise fun a b => order a b ≠ .gt)
    (hlast : ∀ other ∈ front.getLast?, order element other ≠ .lt) {a : α} (ha : a ∈ front) :
    order a element ≠ .gt := by
  rcases List.eq_nil_or_concat' front with rfl | ⟨init, last, rfl⟩
  · exact absurd ha List.not_mem_nil
  · have hle : order last element ≠ .gt := mt Std.OrientedCmp.gt_iff_lt.1 (hlast last (by simp))
    rcases List.mem_append.1 ha with hinit | hself
    · have hal := (List.pairwise_append.1 hsorted).2.2 a hinit last (by simp)
      exact htrans a (hsub ha) last (hsub (by simp)) element hmem hal hle
    · rwa [List.mem_singleton.1 hself]

/-- Sorting puts every element in front of those that it belongs in front of. -/
theorem pairwise_sort (htrans : TransOn order elements) :
    (sort order elements).Pairwise (Before order elements) := by
  induction elements using List.reverseRecOn with
  | nil => exact .nil
  | append_singleton rest element ih =>
    have hrest : TransOn order rest := htrans.subset (List.subset_append_left rest [element])
    have hsorted := (ih hrest).imp (Before.sublist (List.sublist_append_left rest [element]))
    obtain ⟨front, back, hcut, hsort, hback, hfront⟩ := exists_sort_concat order rest element
    have hsub : front ⊆ rest := fun a ha => mem_sort.1 (hcut ▸ List.mem_append_left back ha)
    rw [hcut] at hsorted
    obtain ⟨hfrontSorted, hbackSorted, hacross⟩ := List.pairwise_append.1 hsorted
    have hle {a : α} (ha : a ∈ front) : order a element ≠ .gt :=
      ne_gt_of_getLast? htrans (List.mem_append_right rest (List.mem_singleton_self element))
        (List.subset_append_of_subset_left [element] hsub) (hfrontSorted.imp Before.ne_gt) hfront ha
    rw [hsort]
    refine List.pairwise_append.2 ⟨hfrontSorted, ?_, fun a ha b hb => ?_⟩
    · exact List.pairwise_cons.2 ⟨fun b hb => .inl (hback b hb), hbackSorted⟩
    · rcases List.mem_cons.1 hb with rfl | hb
      · have hpair : [a, b].Sublist (rest ++ [b]) :=
          (List.singleton_sublist.2 (hsub ha)).append (.refl [b])
        cases hcompare : order a b with
        | lt => exact .inl hcompare
        | eq => exact .inr ⟨hcompare, hpair⟩
        | gt => exact absurd hcompare (hle ha)
      · exact hacross a ha b hb

/-! ### Uniqueness -/

/-- No two different elements belong in front of each other. -/
theorem Before.asymm (hd : elements.Nodup) {a b : α} (hab : Before order elements a b) :
    ¬ Before order elements b a := by
  rintro (hba | ⟨hba, hpair⟩)
  · exact hab.ne_gt (Std.OrientedCmp.gt_iff_lt.2 hba)
  · rcases hab with hab | ⟨-, hpair'⟩
    · have hswap : order b a = (order a b).swap := Std.OrientedCmp.eq_swap
      rw [hab, hba] at hswap
      cases hswap
    · exact not_pair_sublist_swap hd hpair' hpair

/-- Sorting puts an element in front of one that it belongs in front of. -/
theorem Before.pair_sublist_sort (hd : elements.Nodup) (htrans : TransOn order elements) {a b : α}
    (ha : a ∈ elements) (hb : b ∈ elements) (hab : Before order elements a b) :
    [a, b].Sublist (sort order elements) := by
  have hne : a ≠ b := by
    rintro rfl
    exact hab.asymm hd hab
  refine (pair_sublist_or (mem_sort.2 ha) (mem_sort.2 hb) hne).resolve_right fun hpair => ?_
  exact hab.asymm hd (List.pairwise_iff_forall_sublist.1 (pairwise_sort htrans) hpair)

/-- A rearrangement in which every element stands in front of those that it belongs in front of is
the sorted one. -/
theorem eq_sort_of_pairwise (hd : elements.Nodup) (htrans : TransOn order elements)
    {sorted : List α} (hperm : sorted.Perm elements)
    (hsorted : sorted.Pairwise (Before order elements)) : sorted = sort order elements :=
  List.Perm.eq_of_pairwise (fun _ _ _ _ hab hba => absurd hba (hab.asymm hd)) hsorted
    (pairwise_sort htrans) (hperm.trans (sort_perm order elements).symm)

/-- Selecting from sorted elements is sorting the selected ones. -/
theorem sort_filter (hd : elements.Nodup) (htrans : TransOn order elements) (selects : α → Bool) :
    sort order (elements.filter selects) = (sort order elements).filter selects := by
  refine (eq_sort_of_pairwise (hd.filter selects) (htrans.subset (List.filter_subset_self elements))
    ((sort_perm order elements).filter selects) ?_).symm
  refine ((pairwise_sort htrans).filter selects).imp_of_mem fun {a b} ha hb hab => ?_
  have hpair : [a, b].filter selects = [a, b] := by
    simp [List.of_mem_filter ha, List.of_mem_filter hb]
  exact hab.imp_right fun ⟨heq, hsub⟩ => ⟨heq, hpair ▸ hsub.filter selects⟩

end AttributeFilter.StableSort
