import AttributeFilter.Record.Store
import Mathlib.Data.List.Induction
import Mathlib.Data.Set.Card

/-!
# Histories of a store

A store is filled and emptied by changes, each of which is about one identifier. Nothing but these
changes decides what the store holds: under each identifier the record that the last change about
it left there, and all records in the order in which their identifiers arrived. An identifier
arrives when a record is inserted under it for the first time since it was last removed; inserting
another record under it, of whatever family, does not make it arrive again.

## Main definitions

* `Change`: an insertion or a removal.
* `Store.after`: the store after some changes, from the empty one on.
* `Change.latest?`: the record that the last change about an identifier left.
* `Change.Arrives`: the position at which an identifier arrived.
* `Store.Reflects`: what a store holds after some changes, said of the changes alone.

## Main results

* `Store.get?_after`, `Store.mem_ids_after_iff`, `Store.ids_after_pairwise`: what is held, and in
  which order.
* `Store.reflects_after`: after any changes the store is what the changes say.
-/

namespace AttributeFilter

inductive Change
  | insert (record : Record)
  | remove (id : Uuid)

namespace Change

def id : Change → Uuid
  | insert record => record.id
  | remove id => id

/-- The record that a change leaves under its identifier. -/
def left? : Change → Option Record
  | insert record => some record
  | remove _ => none

def apply (store : Store) : Change → Store
  | insert record => store.insert record
  | remove id => (store.take id).2

/-! ### What changes say -/

/-- The record that the last change about an identifier left. -/
def latest? (changes : List Change) (id : Uuid) : Option Record :=
  (changes.reverse.find? (·.id == id)).bind left?

/-- At the position a record is inserted under the identifier, and the identifier is not removed
any more after it. -/
def Lasts (changes : List Change) (id : Uuid) (position : Nat) : Prop :=
  (∃ record, changes[position]? = some (insert record) ∧ record.id = id) ∧
    ∀ later > position, changes[later]? ≠ some (remove id)

/-- The position of the first insertion under the identifier since it was last removed. -/
def Arrives (changes : List Change) (id : Uuid) (position : Nat) : Prop :=
  Lasts changes id position ∧ ∀ earlier < position, ¬ Lasts changes id earlier

/-- The first identifier arrived before the second one. -/
def Precedes (changes : List Change) (first second : Uuid) : Prop :=
  ∃ i j, Arrives changes first i ∧ Arrives changes second j ∧ i < j

variable {changes : List Change} {change : Change} {id : Uuid} {position : Nat}

theorem latest?_concat :
    latest? (changes ++ [change]) id =
      if change.id = id then change.left? else latest? changes id := by
  rw [latest?, List.reverse_append, List.reverse_singleton, List.singleton_append]
  by_cases h : change.id = id
  · rw [List.find?_cons_of_pos (by simpa using h), if_pos h, Option.bind_some]
  · rw [List.find?_cons_of_neg (by simpa using h), if_neg h, latest?]

theorem Lasts.lt_length (h : Lasts changes id position) : position < changes.length := by
  obtain ⟨⟨record, hrecord, -⟩, -⟩ := h
  exact (List.getElem?_eq_some_iff.1 hrecord).1

/-- One more change lets an insertion last exactly if it does not remove the identifier. -/
theorem lasts_concat_of_lt (h : position < changes.length) :
    Lasts (changes ++ [change]) id position ↔
      Lasts changes id position ∧ change ≠ remove id := by
  have hat : (changes ++ [change])[position]? = changes[position]? :=
    List.getElem?_append_left h
  constructor
  · rintro ⟨hinserted, hlater⟩
    rw [hat] at hinserted
    refine ⟨⟨hinserted, fun later hgt hremoved => ?_⟩, fun hremoved => ?_⟩
    · have hlt : later < changes.length := (List.getElem?_eq_some_iff.1 hremoved).1
      exact hlater later hgt ((List.getElem?_append_left hlt).trans hremoved)
    · exact hlater changes.length h (by rw [List.getElem?_concat_length, hremoved])
  · rintro ⟨⟨hinserted, hlater⟩, hkept⟩
    refine ⟨by rwa [hat], fun later hgt hremoved => ?_⟩
    rw [List.getElem?_append] at hremoved
    split at hremoved
    · exact hlater later hgt hremoved
    · exact hkept (List.mem_singleton.1 (List.mem_of_getElem? hremoved)).symm

theorem lasts_concat_length :
    Lasts (changes ++ [change]) id changes.length ↔
      ∃ record, change = insert record ∧ record.id = id := by
  rw [Lasts, List.getElem?_concat_length]
  constructor
  · rintro ⟨⟨record, hrecord, hid⟩, -⟩
    exact ⟨record, Option.some.inj hrecord, hid⟩
  · rintro ⟨record, hchange, hid⟩
    refine ⟨⟨record, by rw [hchange], hid⟩, fun later hgt => ?_⟩
    rw [List.getElem?_eq_none (by simpa using hgt)]
    exact Option.some_ne_none _ ∘ Eq.symm

/-- A change left a record under the identifier exactly if some insertion lasts. -/
theorem isSome_latest?_iff :
    (latest? changes id).isSome ↔ ∃ position, Lasts changes id position := by
  induction changes using List.reverseRecOn with
  | nil => simp [latest?, Lasts]
  | append_singleton changes change ih =>
    rw [latest?_concat]
    constructor
    · intro h
      split at h
      · next hid =>
        obtain ⟨record, hrecord⟩ := Option.isSome_iff_exists.1 h
        cases change with
        | insert other => exact ⟨_, lasts_concat_length.2 ⟨other, rfl, hid⟩⟩
        | remove id => cases hrecord
      · next hid =>
        obtain ⟨position, hlasts⟩ := ih.1 h
        refine ⟨position, (lasts_concat_of_lt hlasts.lt_length).2 ⟨hlasts, ?_⟩⟩
        rintro rfl
        exact hid rfl
    · rintro ⟨position, hlasts⟩
      have hlt := hlasts.lt_length
      rw [List.length_append, List.length_singleton, Nat.lt_succ_iff_lt_or_eq] at hlt
      rcases hlt with hlt | rfl
      · obtain ⟨hold, hkept⟩ := (lasts_concat_of_lt hlt).1 hlasts
        split
        · next hid =>
          cases change with
          | insert record => rfl
          | remove other => exact absurd (congrArg remove hid) hkept
        · exact ih.2 ⟨position, hold⟩
      · obtain ⟨record, rfl, rfl⟩ := lasts_concat_length.1 hlasts
        simp [Change.id, left?]

/-- Where some insertion lasts, the identifier arrived with the first such one. -/
theorem exists_arrives (h : (latest? changes id).isSome) :
    ∃ position, Arrives changes id position := by
  classical
  have hlasts := isSome_latest?_iff.1 h
  exact ⟨Nat.find hlasts, Nat.find_spec hlasts, fun earlier => Nat.find_min hlasts⟩

/-- An identifier under which nothing was left arrives with the next insertion. -/
theorem arrives_concat_length {record : Record} (h : ¬ (latest? changes record.id).isSome) :
    Arrives (changes ++ [insert record]) record.id changes.length := by
  refine ⟨lasts_concat_length.2 ⟨record, rfl, rfl⟩, fun earlier hearlier hlasts => h ?_⟩
  exact isSome_latest?_iff.2 ⟨earlier, ((lasts_concat_of_lt hearlier).1 hlasts).1⟩

/-- An identifier that arrived stays where it arrived until it is removed. -/
theorem Arrives.concat (h : Arrives changes id position) (hkept : change ≠ remove id) :
    Arrives (changes ++ [change]) id position := by
  have hlt := h.1.lt_length
  refine ⟨(lasts_concat_of_lt hlt).2 ⟨h.1, hkept⟩, fun earlier hearlier hlasts => ?_⟩
  exact h.2 earlier hearlier ((lasts_concat_of_lt (hearlier.trans hlt)).1 hlasts).1

theorem Precedes.concat {first second : Uuid} (h : Precedes changes first second)
    (hfirst : change ≠ remove first) (hsecond : change ≠ remove second) :
    Precedes (changes ++ [change]) first second := by
  obtain ⟨i, j, hi, hj, hlt⟩ := h
  exact ⟨i, j, hi.concat hfirst, hj.concat hsecond, hlt⟩

end Change

namespace Store

open Change

variable {store : Store} {changes : List Change} {id : Uuid}

/-! ### Stored records -/

theorem get?_eq_some_iff {record : Record} :
    store.get? id = some record ↔ record ∈ store.records ∧ record.id = id := by
  constructor
  · intro h
    exact ⟨List.mem_of_find?_eq_some h, by simpa using List.find?_some h⟩
  · rintro ⟨hmem, rfl⟩
    obtain ⟨found, hfound⟩ : ∃ found, store.get? record.id = some found :=
      Option.isSome_iff_exists.1 (List.find?_isSome.2 ⟨record, hmem, beq_self_eq_true _⟩)
    have hid : found.id = record.id := by simpa using List.find?_some hfound
    have hstored := List.mem_of_find?_eq_some hfound
    rw [hfound, List.inj_on_of_nodup_map store.ids_nodup hstored hmem hid]

theorem mem_ids_iff : id ∈ store.ids ↔ (store.get? id).isSome := by
  simp [ids, get?]

/-- The identifiers and what is found under them make up the records. -/
theorem records_eq_filterMap_ids (store : Store) :
    store.records = store.ids.filterMap store.get? := by
  have hfound : ∀ record ∈ store.records, store.get? record.id = some record :=
    fun record hrecord => get?_eq_some_iff.2 ⟨hrecord, rfl⟩
  calc store.records = store.records.filterMap some := List.filterMap_some.symm
    _ = store.records.filterMap (store.get? ∘ Record.id) :=
      List.filterMap_congr fun record hrecord => (hfound record hrecord).symm
    _ = store.ids.filterMap store.get? := List.filterMap_map.symm

theorem ids_remove_eq_erase (store : Store) (id : Uuid) :
    (store.remove id).ids = store.ids.erase id := by
  have hnodup : store.ids.Nodup := store.ids_nodup
  rw [ids_remove, hnodup.erase_eq_filter]

/-! ### Runs -/

/-- The store after some changes, from the empty one on. -/
def after (changes : List Change) : Store :=
  changes.foldl Change.apply empty

theorem after_concat (changes : List Change) (change : Change) :
    after (changes ++ [change]) = change.apply (after changes) := by
  rw [after, List.foldl_append]
  rfl

theorem apply_remove (store : Store) (id : Uuid) :
    (Change.remove id).apply store = store.remove id := by
  rw [Change.apply, take_eq]

theorem get?_apply (store : Store) (change : Change) (id : Uuid) :
    (change.apply store).get? id = if change.id = id then change.left? else store.get? id := by
  cases change with
  | insert record =>
    by_cases h : record.id = id
    · subst h
      simp [Change.apply, Change.id, left?]
    · simp [Change.apply, Change.id, h, get?_insert_of_ne store record (Ne.symm h)]
  | remove other =>
    rw [apply_remove]
    by_cases h : other = id
    · subst h
      simp [Change.id, left?]
    · simp [Change.id, h, get?_remove_of_ne store (Ne.symm h)]

/-- An identifier finds the record that the last change about it left. -/
theorem get?_after (changes : List Change) (id : Uuid) :
    (after changes).get? id = latest? changes id := by
  induction changes using List.reverseRecOn with
  | nil => rfl
  | append_singleton changes change ih => rw [after_concat, get?_apply, latest?_concat, ih]

theorem mem_ids_after_iff : id ∈ (after changes).ids ↔ (latest? changes id).isSome := by
  rw [mem_ids_iff, get?_after]

/-- The identifiers of a store stand in the order in which they arrived. -/
theorem ids_after_pairwise (changes : List Change) :
    (after changes).ids.Pairwise (Precedes changes) := by
  induction changes using List.reverseRecOn with
  | nil => exact .nil
  | append_singleton changes change ih =>
    rw [after_concat]
    cases change with
    | insert record =>
      have hkept : ∀ id, Change.insert record ≠ .remove id := fun id h => by cases h
      have hstay := ih.imp fun h => h.concat (hkept _) (hkept _)
      rw [Change.apply, ids_insert]
      split
      · exact hstay
      · next hnew =>
        rw [List.pairwise_append]
        refine ⟨hstay, List.pairwise_singleton _ _, fun first hfirst second hsecond => ?_⟩
        cases List.mem_singleton.1 hsecond
        obtain ⟨i, hi⟩ := exists_arrives (mem_ids_after_iff.1 hfirst)
        have harrives : Arrives (changes ++ [.insert record]) record.id changes.length :=
          arrives_concat_length fun h => hnew (mem_ids_after_iff.2 h)
        exact ⟨i, changes.length, hi.concat (hkept _), harrives, hi.1.lt_length⟩
    | remove id =>
      rw [apply_remove, ids_remove, List.pairwise_filter]
      refine ih.imp fun h hfirst hsecond => h.concat ?_ ?_
      · rintro ⟨⟩
        simp at hfirst
      · rintro ⟨⟩
        simp at hsecond

/-! ### What a store holds -/

/-- A store holds what some changes say: under each identifier the record that the last change about
it left, and all of them in the order in which their identifiers arrived. -/
structure Reflects (store : Store) (changes : List Change) : Prop where
  ids_nodup : store.ids.Nodup
  get?_eq : ∀ id, store.get? id = latest? changes id
  id_of_get? : ∀ id record, store.get? id = some record → record.id = id
  mem_ids_iff : ∀ id, id ∈ store.ids ↔ (latest? changes id).isSome
  ids_in_order : store.ids.Pairwise (Precedes changes)
  records_eq : store.records = store.ids.filterMap (latest? changes)
  size_eq : store.size = {id | (latest? changes id).isSome}.ncard
  ofFamily_eq : ∀ family, store.ofFamily family =
    (store.ids.filterMap (latest? changes)).filter (·.family = family)
  taken_eq : ∀ id, (store.take id).1 = latest? changes id
  ids_replace : ∀ record, record.id ∈ store.ids → (store.insert record).ids = store.ids
  ids_take : ∀ id, (store.take id).2.ids = store.ids.erase id

theorem size_eq_ncard (store : Store) : store.size = {id | id ∈ store.ids}.ncard := by
  have hnodup : store.ids.Nodup := store.ids_nodup
  calc store.size = store.ids.length := (List.length_map Record.id).symm
    _ = store.ids.toFinset.card := (List.toFinset_card_of_nodup hnodup).symm
    _ = (store.ids.toFinset : Set Uuid).ncard := (Set.ncard_coe_finset _).symm
    _ = {id | id ∈ store.ids}.ncard := by rw [List.coe_toFinset]

/-- **Stores reflect their histories.** Whatever records were inserted and removed, in whatever
order, a store that was empty before holds what these changes say. -/
theorem reflects_after (changes : List Change) : (after changes).Reflects changes := by
  have hget : (after changes).get? = latest? changes := funext (get?_after changes)
  have hrecords : (after changes).records = (after changes).ids.filterMap (latest? changes) := by
    rw [← hget]
    exact records_eq_filterMap_ids _
  exact {
    ids_nodup := (after changes).ids_nodup
    get?_eq := get?_after changes
    id_of_get? := fun id record h => (get?_eq_some_iff.1 h).2
    mem_ids_iff := fun id => mem_ids_after_iff
    ids_in_order := ids_after_pairwise changes
    records_eq := hrecords
    size_eq := by simp only [size_eq_ncard, mem_ids_after_iff]
    ofFamily_eq := fun family => by
      rw [← hrecords]
      rfl
    taken_eq := fun id => by rw [take_eq, get?_after]
    ids_replace := fun record h => by rw [ids_insert, if_pos h]
    ids_take := fun id => by rw [take_eq, ids_remove_eq_erase] }

end Store

end AttributeFilter
