/-!
# Insertion-ordered association lists

Parameters, attributes, families and filters are all kept under names, and the order in which the
names were first given is part of every answer. This file holds the operations on lists of named
entries that keep that order: an entry stays where its name first appeared, whatever is written
to it later.

## Main definitions

* `Keyed.get?`, `Keyed.contains`, `Keyed.keys`: reading.
* `Keyed.update`: changes the entry of a name in place, or appends a changed initial value.
* `Keyed.insert`, `Keyed.extend`, `Keyed.ofList`: writing one entry, or many.
* `Keyed.repeated?`: the first name in a list that was given before.

## Main results

* `Keyed.get?_update_self`, `Keyed.get?_update_of_ne`: what a name holds after an update.
* `Keyed.keys_update`, `Keyed.nodup_keys_update`: an update adds at most its own name, at the end.
* `Keyed.nodup_keys_ofList`: pairs read as entries have distinct names.
* `Keyed.repeated?_eq_none_iff`: no name is repeated exactly if the names are distinct.
-/

namespace AttributeFilter.Keyed

variable {α : Type}

def keys (entries : List (String × α)) : List String :=
  entries.map Prod.fst

def get? (key : String) : List (String × α) → Option α
  | [] => none
  | (k, v) :: rest => if k = key then some v else get? key rest

def contains (key : String) (entries : List (String × α)) : Bool :=
  (get? key entries).isSome

/-- Changes the entry of the name where it stands; a name without entry gets one at the end,
holding the changed initial value. -/
def update (key : String) (initial : α) (change : α → α) :
    List (String × α) → List (String × α)
  | [] => [(key, change initial)]
  | (k, v) :: rest =>
    if k = key then (k, change v) :: rest else (k, v) :: update key initial change rest

/-- Writes the value under the name, in place if the name is known. -/
def insert (key : String) (value : α) (entries : List (String × α)) : List (String × α) :=
  update key value (fun _ => value) entries

/-- Writes all entries of the second list, in order, into the first. -/
def extend (entries more : List (String × α)) : List (String × α) :=
  more.foldl (fun known entry => insert entry.1 entry.2 known) entries

/-- Reads pairs as entries: a repeated name keeps its first place and its last value. -/
def ofList (pairs : List (String × α)) : List (String × α) :=
  extend [] pairs

/-- The first name that is among the names seen before it. -/
def repeatedAfter? (seen : List String) : List String → Option String
  | [] => none
  | name :: rest => if name ∈ seen then some name else repeatedAfter? (name :: seen) rest

/-- The first name that was given before. -/
def repeated? (names : List String) : Option String :=
  repeatedAfter? [] names

/-! ### Repeated names -/

theorem repeatedAfter?_eq_none_iff : (names seen : List String) →
    (repeatedAfter? seen names = none ↔ names.Nodup ∧ ∀ name ∈ names, name ∉ seen)
  | [], _ => by simp [repeatedAfter?]
  | name :: rest, seen => by
    by_cases h : name ∈ seen
    · simp [repeatedAfter?, h]
    · rw [repeatedAfter?, if_neg h, repeatedAfter?_eq_none_iff rest (name :: seen),
        List.nodup_cons]
      constructor
      · rintro ⟨hd, hs⟩
        refine ⟨⟨fun hm => hs name hm List.mem_cons_self, hd⟩, ?_⟩
        intro other ho
        rcases List.mem_cons.1 ho with rfl | ho
        · exact h
        · exact fun hm => hs other ho (List.mem_cons_of_mem _ hm)
      · rintro ⟨⟨hn, hd⟩, hs⟩
        refine ⟨hd, fun other ho hm => ?_⟩
        rcases List.mem_cons.1 hm with rfl | hm
        · exact hn ho
        · exact hs other (List.mem_cons_of_mem _ ho) hm

theorem repeated?_eq_none_iff (names : List String) : repeated? names = none ↔ names.Nodup := by
  simp [repeated?, repeatedAfter?_eq_none_iff]

/-! ### Names after an update -/

@[simp] theorem keys_nil : keys ([] : List (String × α)) = [] := rfl

@[simp] theorem keys_cons (entry : String × α) (rest : List (String × α)) :
    keys (entry :: rest) = entry.1 :: keys rest := rfl

theorem get?_isSome_iff (key : String) :
    (entries : List (String × α)) → ((get? key entries).isSome ↔ key ∈ keys entries)
  | [] => by simp [get?]
  | (k, v) :: rest => by
    by_cases h : k = key
    · simp [get?, h]
    · simp [get?, h, get?_isSome_iff key rest, Ne.symm h]

theorem mem_of_get?_eq_some {key : String} {value : α} :
    {entries : List (String × α)} → get? key entries = some value → (key, value) ∈ entries
  | [], h => by simp [get?] at h
  | (k, v) :: rest, h => by
    by_cases hk : k = key
    · simp only [get?, hk, if_true, Option.some.injEq] at h
      subst h
      subst hk
      exact List.mem_cons_self
    · simp only [get?, hk, if_false] at h
      exact List.mem_cons_of_mem _ (mem_of_get?_eq_some h)

theorem contains_iff (key : String) (entries : List (String × α)) :
    contains key entries = true ↔ key ∈ keys entries :=
  get?_isSome_iff key entries

/-- An update keeps all names in place and appends its own if it is new. -/
theorem keys_update (key : String) (initial : α) (change : α → α) :
    (entries : List (String × α)) → keys (update key initial change entries) =
      if key ∈ keys entries then keys entries else keys entries ++ [key]
  | [] => by simp [update, keys]
  | (k, v) :: rest => by
    by_cases h : k = key
    · simp [update, h]
    · have ih := keys_update key initial change rest
      by_cases hk : key ∈ keys rest
      · simp [update, h, ih, hk]
      · simp [update, h, ih, hk, Ne.symm h]

theorem nodup_keys_update (key : String) (initial : α) (change : α → α)
    {entries : List (String × α)} (h : (keys entries).Nodup) :
    (keys (update key initial change entries)).Nodup := by
  rw [keys_update]
  split
  · exact h
  · rename_i hk
    rw [List.nodup_append]
    refine ⟨h, by simp, ?_⟩
    intro a ha b hb
    rw [List.mem_singleton] at hb
    subst hb
    exact fun e => hk (e ▸ ha)

/-- Writing entries into distinct names leaves the names distinct. -/
theorem nodup_keys_extend : (more : List (String × α)) → {entries : List (String × α)} →
    (keys entries).Nodup → (keys (extend entries more)).Nodup
  | [], _, h => h
  | entry :: rest, _, h =>
    nodup_keys_extend rest (nodup_keys_update entry.1 entry.2 (fun _ => entry.2) h)

theorem nodup_keys_ofList (pairs : List (String × α)) : (keys (ofList pairs)).Nodup :=
  nodup_keys_extend pairs List.nodup_nil

/-! ### Values after an update -/

/-- The updated name holds the changed value: of its old value, or of the initial one. -/
theorem get?_update_self (key : String) (initial : α) (change : α → α) :
    (entries : List (String × α)) → get? key (update key initial change entries) =
      some (change ((get? key entries).getD initial))
  | [] => by simp [update, get?]
  | (k, v) :: rest => by
    by_cases h : k = key
    · simp [update, get?, h]
    · simp [update, get?, h, get?_update_self key initial change rest]

/-- Every other name holds what it held. -/
theorem get?_update_of_ne {key other : String} (h : other ≠ key) (initial : α) (change : α → α) :
    (entries : List (String × α)) →
      get? other (update key initial change entries) = get? other entries
  | [] => by simp [update, get?, Ne.symm h]
  | (k, v) :: rest => by
    by_cases hk : k = key
    · subst hk
      simp [update, get?, Ne.symm h]
    · by_cases ho : k = other
      · subst ho
        simp [update, get?, h]
      · simp [update, get?, hk, ho, get?_update_of_ne h initial change rest]

@[simp] theorem get?_insert_self (key : String) (value : α) (entries : List (String × α)) :
    get? key (insert key value entries) = some value :=
  get?_update_self key value _ entries

theorem get?_insert_of_ne {key other : String} (h : other ≠ key) (value : α)
    (entries : List (String × α)) : get? other (insert key value entries) = get? other entries :=
  get?_update_of_ne h value _ entries

end AttributeFilter.Keyed
