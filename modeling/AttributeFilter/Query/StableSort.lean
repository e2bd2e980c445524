/-!
# Stable insertion sort

Elements are put into place one after the other; each moves in front of the elements placed before
it, from the last one on, as long as it comes before them. Elements that compare as equal keep
their order. The sort is defined for every comparison, also for one that is no order.

## Main definitions

* `StableSort.settle`: puts an element into place among those placed before it.
* `StableSort.sort`: puts all elements into place.

## Main results

* `StableSort.sort_perm`: sorting neither adds nor loses an element.
-/

namespace AttributeFilter.StableSort

variable {α : Type}

/-- Puts an element into place. The elements placed before it are given from the last one on. -/
def settle (order : α → α → Ordering) (element : α) : List α → List α
  | [] => [element]
  | last :: before =>
    if order element last = .lt then last :: settle order element before
    else element :: last :: before

/-- Puts all elements into place. -/
def sort (order : α → α → Ordering) (elements : List α) : List α :=
  (elements.foldl (fun placed element => settle order element placed) []).reverse

theorem settle_perm (order : α → α → Ordering) (element : α) :
    (placed : List α) → (settle order element placed).Perm (element :: placed)
  | [] => .refl _
  | last :: before => by
    rw [settle]
    split
    · exact ((settle_perm order element before).cons last).trans (.swap element last before)
    · exact .refl _

theorem foldl_settle_perm (order : α → α → Ordering) : (elements placed : List α) →
    (elements.foldl (fun placed element => settle order element placed) placed).Perm
      (placed ++ elements)
  | [], placed => by simp
  | element :: rest, placed => by
    rw [List.foldl_cons]
    refine (foldl_settle_perm order rest _).trans ?_
    exact ((settle_perm order element placed).append_right rest).trans List.perm_middle.symm

/-- Sorting neither adds nor loses an element. -/
theorem sort_perm (order : α → α → Ordering) (elements : List α) :
    (sort order elements).Perm elements :=
  (List.reverse_perm _).trans (by simpa using foldl_settle_perm order elements [])

theorem mem_sort {order : α → α → Ordering} {elements : List α} {element : α} :
    element ∈ sort order elements ↔ element ∈ elements :=
  (sort_perm order elements).mem_iff

end AttributeFilter.StableSort
