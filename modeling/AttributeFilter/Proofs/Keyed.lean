import AttributeFilter.Keyed

/-!
# Updates of named entries

How an update acts on entries that are given in two parts, and what holds of every entry after
it. An update is a write of the changed value, and a write touches no other entry.

## Main definitions

* `Keyed.Sets`: what entries become when a value is set under a name.

## Main results

* `Keyed.get?_eq_some_iff_mem`: look-up under distinct names.
* `Keyed.update_append_of_notMem`: an update passes over entries with other names.
* `Keyed.update_of_notMem`: a new name is appended with the changed initial value.
* `Keyed.sets_iff_eq_insert`: writing a value sets it and keeps all other entries where they stand.
* `Keyed.mem_keys_extend_iff`: the names after entries are written.
* `Keyed.forall_mem_update`: a property of all values outlasts an update that gives it to the one
  value it changes.
* `Keyed.get?_extend_of_notMem`: entries that are written leave other names alone.
* `Keyed.get?_extend_of_last`: a name holds the last value written under it.
* `Keyed.extend_of_forall_notMem`: pairs that are written under new names are appended as entries.
* `Keyed.ofList_of_nodup`: pairs under distinct names are entries as they stand.
* `Keyed.ofList_map`: values can be changed before or after pairs are read as entries.
-/

namespace AttributeFilter.Keyed

variable {α : Type} {key : String} {initial : α} {change : α → α}

@[simp] theorem keys_append (first second : List (String × α)) :
    keys (first ++ second) = keys first ++ keys second :=
  List.map_append

theorem mem_keys_of_mem {entry : String × α} {entries : List (String × α)} (h : entry ∈ entries) :
    entry.1 ∈ keys entries :=
  List.mem_map_of_mem h

/-- Under distinct names, what a name holds is the value of its entry. -/
theorem get?_eq_some_iff_mem {value : α} {entries : List (String × α)}
    (distinct : (keys entries).Nodup) :
    get? key entries = some value ↔ (key, value) ∈ entries := by
  induction entries with
  | nil => simp [get?]
  | cons first rest ih =>
    obtain ⟨name, held⟩ := first
    rw [keys_cons, List.nodup_cons] at distinct
    rw [get?, List.mem_cons, Prod.mk.injEq]
    split
    · next hname =>
      subst hname
      have hrest : (name, value) ∉ rest := by
        intro hmem
        exact distinct.1 (List.mem_map.2 ⟨(name, value), hmem, rfl⟩)
      simp [hrest, eq_comm]
    · next hname => simp [Ne.symm hname, ih distinct.2]

theorem mem_keys_update_iff {name : String} {entries : List (String × α)} :
    name ∈ keys (update key initial change entries) ↔ name = key ∨ name ∈ keys entries := by
  rw [keys_update]
  split
  · next hkey =>
    constructor
    · exact .inr
    · rintro (rfl | h)
      · exact hkey
      · exact h
  · rw [List.mem_append, List.mem_singleton, or_comm]

/-- The names after entries are written are those before, and theirs. -/
theorem mem_keys_extend_iff {name : String} {more : List (String × α)}
    {entries : List (String × α)} :
    name ∈ keys (extend entries more) ↔ name ∈ keys entries ∨ name ∈ keys more := by
  induction more generalizing entries with
  | nil => simp [extend]
  | cons entry rest ih =>
    calc name ∈ keys (extend entries (entry :: rest))
        ↔ name ∈ keys (extend (insert entry.1 entry.2 entries) rest) := Iff.rfl
      _ ↔ (name = entry.1 ∨ name ∈ keys entries) ∨ name ∈ keys rest := by
        rw [ih, insert, mem_keys_update_iff]
      _ ↔ name ∈ keys entries ∨ name ∈ keys (entry :: rest) := by
        rw [keys_cons, List.mem_cons, or_comm (a := name = entry.1), or_assoc]

theorem update_ne_nil (key : String) (initial : α) (change : α → α) :
    (entries : List (String × α)) → update key initial change entries ≠ []
  | [] => List.cons_ne_nil _ _
  | (name, value) :: rest => by
    rw [update]
    split <;> exact List.cons_ne_nil _ _

/-- An update passes over entries with other names. -/
theorem update_append_of_notMem {first : List (String × α)} (h : key ∉ keys first)
    (second : List (String × α)) :
    update key initial change (first ++ second) = first ++ update key initial change second := by
  induction first with
  | nil => rfl
  | cons entry rest ih =>
    rw [keys_cons, List.mem_cons, not_or] at h
    rw [List.cons_append, update, if_neg (Ne.symm h.1), ih h.2, List.cons_append]

/-- A new name is appended with the changed initial value. -/
theorem update_of_notMem {entries : List (String × α)} (h : key ∉ keys entries) :
    update key initial change entries = entries ++ [(key, change initial)] :=
  calc update key initial change entries
      = update key initial change (entries ++ []) := by rw [List.append_nil]
    _ = entries ++ [(key, change initial)] := update_append_of_notMem h []

/-! ### Setting a value -/

/-- A value is set under a name: in place of the first value that the name holds, or in a new entry
at the end. All other entries stay as they are, and where they are. -/
inductive Sets (name : String) (value : α) : List (String × α) → List (String × α) → Prop
  | known (first : List (String × α)) {second : List (String × α)} {old : α}
      (h : name ∉ keys first) :
      Sets name value (first ++ (name, old) :: second) (first ++ (name, value) :: second)
  | new {entries : List (String × α)} (h : name ∉ keys entries) :
      Sets name value entries (entries ++ [(name, value)])

theorem Sets.cons {name : String} {value : α} {entry : String × α}
    {entries changed : List (String × α)} (hentry : name ≠ entry.1)
    (h : Sets name value entries changed) :
    Sets name value (entry :: entries) (entry :: changed) := by
  cases h with
  | known first hfirst =>
    exact .known (entry :: first) (List.not_mem_cons_of_ne_of_not_mem hentry hfirst)
  | new hname => exact .new (List.not_mem_cons_of_ne_of_not_mem hentry hname)

theorem sets_insert (name : String) (value : α) (entries : List (String × α)) :
    Sets name value entries (insert name value entries) := by
  induction entries with
  | nil => exact .new List.not_mem_nil
  | cons entry rest ih =>
    obtain ⟨other, held⟩ := entry
    rw [insert, update]
    split
    · next hname =>
      subst hname
      exact .known [] List.not_mem_nil
    · next hname => exact ih.cons (Ne.symm hname)

/-- Writing a value sets it, and nothing else does. -/
theorem sets_iff_eq_insert {name : String} {value : α} {entries changed : List (String × α)} :
    Sets name value entries changed ↔ changed = insert name value entries := by
  constructor
  · intro h
    cases h with
    | known first hfirst => rw [insert, update_append_of_notMem hfirst, update, if_pos rfl]
    | new hname => rw [insert, update_of_notMem hname]
  · rintro rfl
    exact sets_insert name value entries

/-- An update writes the changed value. -/
theorem update_eq_insert (key : String) (initial : α) (change : α → α)
    (entries : List (String × α)) :
    update key initial change entries =
      insert key (change ((get? key entries).getD initial)) entries := by
  induction entries with
  | nil => rfl
  | cons entry rest ih =>
    obtain ⟨name, value⟩ := entry
    rw [insert, update, update, get?]
    split
    · rfl
    · rw [ih, insert]

/-! ### Values after writes -/

/-- A property of all values outlasts an update that gives it to the one value it changes. -/
theorem forall_mem_update {p : String × α → Prop} {entries : List (String × α)}
    (h : ∀ entry ∈ entries, p entry) (hnew : p (key, change initial))
    (hchange : ∀ value, p (key, value) → p (key, change value)) :
    ∀ entry ∈ update key initial change entries, p entry := by
  induction entries with
  | nil =>
    intro entry hentry
    cases List.mem_singleton.1 hentry
    exact hnew
  | cons first rest ih =>
    obtain ⟨name, value⟩ := first
    rw [List.forall_mem_cons] at h
    rw [update]
    split
    · next hname =>
      subst hname
      exact List.forall_mem_cons.2 ⟨hchange value h.1, h.2⟩
    · exact List.forall_mem_cons.2 ⟨h.1, ih h.2⟩

/-- Entries that are written leave other names alone. -/
theorem get?_extend_of_notMem {more : List (String × α)} (h : key ∉ keys more)
    (entries : List (String × α)) : get? key (extend entries more) = get? key entries := by
  induction more generalizing entries with
  | nil => rfl
  | cons entry rest ih =>
    rw [keys_cons, List.mem_cons, not_or] at h
    calc get? key (extend entries (entry :: rest))
        = get? key (extend (insert entry.1 entry.2 entries) rest) := rfl
      _ = get? key (insert entry.1 entry.2 entries) := ih h.2 _
      _ = get? key entries := get?_insert_of_ne h.1 entry.2 entries

theorem extend_append (entries first second : List (String × α)) :
    extend entries (first ++ second) = extend (extend entries first) second :=
  List.foldl_append

/-- A name holds the last value written under it. -/
theorem get?_extend_of_last {second : List (String × α)} (h : key ∉ keys second) (value : α)
    (entries first : List (String × α)) :
    get? key (extend entries (first ++ (key, value) :: second)) = some value :=
  calc get? key (extend entries (first ++ (key, value) :: second))
      = get? key (extend (insert key value (extend entries first)) second) := by
        rw [extend_append]
        rfl
    _ = get? key (insert key value (extend entries first)) := get?_extend_of_notMem h _
    _ = some value := get?_insert_self key value _

/-- Entries that are written under new and distinct names are appended. -/
theorem extend_of_nodup {entries more : List (String × α)} (h : (keys (entries ++ more)).Nodup) :
    extend entries more = entries ++ more := by
  induction more generalizing entries with
  | nil => exact (List.append_nil entries).symm
  | cons entry rest ih =>
    have hnew : entry.1 ∉ keys entries := by
      rw [keys_append, keys_cons, List.nodup_append] at h
      exact fun hmem => h.2.2 entry.1 hmem entry.1 List.mem_cons_self rfl
    have hone : insert entry.1 entry.2 entries = entries ++ [entry] := update_of_notMem hnew
    have hrest : (keys ((entries ++ [entry]) ++ rest)).Nodup := by
      rwa [List.append_assoc, List.singleton_append]
    calc extend entries (entry :: rest)
        = extend (insert entry.1 entry.2 entries) rest := rfl
      _ = (entries ++ [entry]) ++ rest := by rw [hone, ih hrest]
      _ = entries ++ entry :: rest := by rw [List.append_assoc, List.singleton_append]

theorem extend_append_of_forall_notMem {first more : List (String × α)}
    (h : ∀ name ∈ keys more, name ∉ keys first) (second : List (String × α)) :
    extend (first ++ second) more = first ++ extend second more := by
  induction more generalizing second with
  | nil => rfl
  | cons entry rest ih =>
    obtain ⟨hentry, hrest⟩ := List.forall_mem_cons.1 h
    calc extend (first ++ second) (entry :: rest)
        = extend (insert entry.1 entry.2 (first ++ second)) rest := rfl
      _ = extend (first ++ insert entry.1 entry.2 second) rest := by
        rw [insert, update_append_of_notMem hentry, insert]
      _ = first ++ extend second (entry :: rest) := ih hrest _

/-- Pairs that are written under new names are read as entries and appended. -/
theorem extend_of_forall_notMem {entries more : List (String × α)}
    (h : ∀ name ∈ keys more, name ∉ keys entries) : extend entries more = entries ++ ofList more :=
  calc extend entries more = extend (entries ++ []) more := by rw [List.append_nil]
    _ = entries ++ ofList more := extend_append_of_forall_notMem h []

/-- Pairs under distinct names are entries as they stand. -/
theorem ofList_of_nodup {pairs : List (String × α)} (h : (keys pairs).Nodup) :
    ofList pairs = pairs :=
  extend_of_nodup h

/-! ### Changed values -/

section Values

variable {β : Type} (f : α → β)

theorem map_insert (key : String) (value : α) (entries : List (String × α)) :
    (insert key value entries).map (fun entry => (entry.1, f entry.2)) =
      insert key (f value) (entries.map fun entry => (entry.1, f entry.2)) := by
  induction entries with
  | nil => rfl
  | cons first rest ih =>
    obtain ⟨name, held⟩ := first
    rw [insert, update, List.map_cons, insert, update]
    split
    · rfl
    · exact congrArg ((name, f held) :: ·) ih

theorem map_extend (entries more : List (String × α)) :
    (extend entries more).map (fun entry => (entry.1, f entry.2)) =
      extend (entries.map fun entry => (entry.1, f entry.2))
        (more.map fun entry => (entry.1, f entry.2)) := by
  induction more generalizing entries with
  | nil => rfl
  | cons entry rest ih =>
    calc (extend entries (entry :: rest)).map (fun entry => (entry.1, f entry.2))
        = (extend (insert entry.1 entry.2 entries) rest).map (fun entry => (entry.1, f entry.2)) :=
          rfl
      _ = extend (insert entry.1 (f entry.2) (entries.map fun entry => (entry.1, f entry.2)))
            (rest.map fun entry => (entry.1, f entry.2)) := by rw [ih, map_insert]

/-- It makes no difference whether values are changed before or after pairs are read as entries. -/
theorem ofList_map (pairs : List (String × α)) :
    ofList (pairs.map fun entry => (entry.1, f entry.2)) =
      (ofList pairs).map fun entry => (entry.1, f entry.2) :=
  (map_extend f [] pairs).symm

end Values

end AttributeFilter.Keyed
