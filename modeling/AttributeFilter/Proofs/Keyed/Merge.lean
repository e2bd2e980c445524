import AttributeFilter.Proofs.Keyed
import Mathlib.Data.List.Induction

/-!
# Merging named entries

Several lists of entries are written one after the other into one. The position of a name comes from
the first list that has it and its value from the last one, and both together are all that there is
to entries under distinct names. So entries that were just written can be written once more without
a trace.

## Main definitions

* `Keyed.Merges`: what lists of entries are merged into.

## Main results

* `Keyed.eq_of_keys_eq`: entries under distinct names are known by their names in order and by what
  these hold.
* `Keyed.keys_ofList`, `Keyed.get?_extend`: the names of pairs read as entries, and what they hold.
* `Keyed.merges_iff`: reading all entries one after the other merges them.
* `Keyed.extend_extend_self`: writing entries that were just written changes nothing.
-/

namespace AttributeFilter.Keyed

variable {α : Type} {key : String} {parts : List (List (String × α))}
  {entries merged : List (String × α)}

theorem get?_eq_none_iff : get? key entries = none ↔ key ∉ keys entries := by
  rw [← get?_isSome_iff, Bool.not_eq_true, Option.isSome_eq_false_iff, Option.isNone_iff_eq_none]

/-- Entries under distinct names are known by their names in order and by what these hold. -/
theorem eq_of_keys_eq {first second : List (String × α)} (distinct : (keys first).Nodup)
    (hkeys : keys first = keys second) (hget : ∀ name, get? name first = get? name second) :
    first = second := by
  induction first generalizing second with
  | nil => exact (List.map_eq_nil_iff.1 hkeys.symm).symm
  | cons entry rest ih =>
    obtain ⟨name, value⟩ := entry
    cases second with
    | nil => cases hkeys
    | cons other others =>
      obtain ⟨otherName, otherValue⟩ := other
      rw [keys_cons, List.nodup_cons] at distinct
      obtain ⟨rfl, hrest⟩ : name = otherName ∧ keys rest = keys others := List.cons.inj hkeys
      have hvalue : value = otherValue := by simpa [get?] using hget name
      have hothers : rest = others := ih distinct.2 hrest fun later => by
        by_cases hlater : name = later
        · subst hlater
          rw [get?_eq_none_iff.2 distinct.1, get?_eq_none_iff.2 (hrest ▸ distinct.1)]
        · simpa [get?, hlater] using hget later
      rw [hvalue, hothers]

/-! ### Names and values -/

/-- The names of pairs read as entries are those of the pairs in the order of their first
appearance. -/
theorem keys_ofList (pairs : List (String × α)) : keys (ofList pairs) = (keys pairs).eraseDups := by
  induction pairs using List.reverseRecOn with
  | nil => rfl
  | append_singleton pairs entry ih =>
    have hlast : keys (ofList (pairs ++ [entry])) =
        if entry.1 ∈ keys (ofList pairs) then keys (ofList pairs)
        else keys (ofList pairs) ++ [entry.1] := by
      rw [ofList, extend_append]
      exact keys_update _ _ _ _
    rw [hlast, ih, keys_append, List.eraseDups_append]
    by_cases h : entry.1 ∈ keys pairs <;> simp [List.removeAll, h, List.eraseDups_cons]

/-- What a name holds after pairs are written is the last of its values among them, or else what it
held before. -/
theorem get?_extend (key : String) (entries more : List (String × α)) :
    get? key (extend entries more) = (get? key (ofList more)).or (get? key entries) := by
  induction more using List.reverseRecOn with
  | nil => rfl
  | append_singleton more entry ih =>
    have hlast (known : List (String × α)) :
        extend known (more ++ [entry]) = insert entry.1 entry.2 (extend known more) :=
      extend_append known more [entry]
    rw [ofList, hlast, hlast, ← ofList]
    by_cases h : key = entry.1
    · simp [h]
    · rw [get?_insert_of_ne h, get?_insert_of_ne h, ih]

/-- Writing names that are known adds none. -/
theorem keys_extend_of_subset {more : List (String × α)} (h : keys more ⊆ keys entries) :
    keys (extend entries more) = keys entries := by
  induction more generalizing entries with
  | nil => rfl
  | cons entry rest ih =>
    rw [keys_cons, List.cons_subset] at h
    have hfirst : keys (insert entry.1 entry.2 entries) = keys entries := by
      rw [insert, keys_update, if_pos h.1]
    calc keys (extend entries (entry :: rest))
        = keys (extend (insert entry.1 entry.2 entries) rest) := rfl
      _ = keys entries := by rw [ih (hfirst ▸ h.2), hfirst]

/-- Writing entries that were just written changes nothing. -/
theorem extend_extend_self (distinct : (keys entries).Nodup) (more : List (String × α)) :
    extend (extend entries more) more = extend entries more := by
  have hdistinct := nodup_keys_extend more distinct
  refine eq_of_keys_eq (nodup_keys_extend more hdistinct) ?_ fun name => ?_
  · exact keys_extend_of_subset fun name hname => mem_keys_extend_iff.2 (.inr hname)
  · rw [get?_extend, get?_extend, ← Option.or_assoc, Option.or_self]

/-! ### Merging -/

/-- The parts are merged into one list of entries: each name has the place of its first appearance,
and holds what the last part that has it says of it. -/
structure Merges (parts : List (List (String × α))) (merged : List (String × α)) : Prop where
  keys : keys merged = (parts.flatMap keys).eraseDups
  entry : ∀ key value, get? key merged = some value ↔
    ∃ before own after, parts = before ++ own :: after ∧ get? key own = some value ∧
      ∀ later ∈ after, key ∉ Keyed.keys later

/-- A name holds what the last part that has it says of it. -/
theorem get?_ofList_flatten (key : String) (hparts : ∀ part ∈ parts, (keys part).Nodup) :
    get? key (ofList parts.flatten) = parts.reverse.findSome? (get? key) := by
  induction parts using List.reverseRecOn with
  | nil => rfl
  | append_singleton parts last ih =>
    rw [List.forall_mem_append, List.forall_mem_singleton] at hparts
    rw [List.flatten_append, List.flatten_singleton, ofList, extend_append, get?_extend,
      ofList_of_nodup hparts.2, List.reverse_append, List.reverse_singleton,
      List.singleton_append, List.findSome?_cons, ← ih hparts.1, ofList]
    cases get? key last <;> rfl

theorem merges_ofList_flatten (hparts : ∀ part ∈ parts, (keys part).Nodup) :
    Merges parts (ofList parts.flatten) where
  keys := by rw [keys_ofList, Keyed.keys, List.map_flatten, List.flatMap_def]; rfl
  entry key value := by
    rw [get?_ofList_flatten key hparts, List.findSome?_eq_some_iff]
    constructor
    · rintro ⟨after, own, before, hsplit, hown, hafter⟩
      refine ⟨before.reverse, own, after.reverse, ?_, hown, fun later hlater => ?_⟩
      · rw [← List.reverse_reverse parts, hsplit]
        simp
      · exact get?_eq_none_iff.1 (hafter later (List.mem_reverse.1 hlater))
    · rintro ⟨before, own, after, rfl, hown, hafter⟩
      refine ⟨after.reverse, own, before.reverse, by simp, hown, fun later hlater => ?_⟩
      exact get?_eq_none_iff.2 (hafter later (List.mem_reverse.1 hlater))

/-- Parts with distinct names each are merged by reading all their entries one after the other, and
into nothing else. -/
theorem merges_iff (hparts : ∀ part ∈ parts, (keys part).Nodup) :
    Merges parts merged ↔ merged = ofList parts.flatten := by
  have hread := merges_ofList_flatten hparts
  constructor
  · intro hmerged
    have hkeys : Keyed.keys (ofList parts.flatten) = Keyed.keys merged :=
      hread.keys.trans hmerged.keys.symm
    refine eq_of_keys_eq (hkeys ▸ nodup_keys_ofList _) hkeys.symm fun name => ?_
    exact Option.ext fun value => (hmerged.entry name value).trans (hread.entry name value).symm
  · rintro rfl
    exact hread

/-- A name that is in both parts stands where the first one has it, with the value of the second. -/
example : ofList [[("a", 1), ("b", 2)], [("c", 3), ("a", 4)]].flatten =
    [("a", 4), ("b", 2), ("c", 3)] := by
  decide

end AttributeFilter.Keyed
