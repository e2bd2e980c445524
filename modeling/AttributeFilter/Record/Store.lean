import AttributeFilter.Record.Value
import AttributeFilter.Schema.Registry

/-!
# Records and their store

A record has an identifier, belongs to a family, and holds values under the codes of attributes.
The store keeps records in the order in which their identifiers came.

## Main definitions

* `Record`: a record.
* `Store`: records with distinct identifiers.
* `Store.insert`, `Store.remove`: a record replaces the one with its identifier where it stands;
  removing one keeps the order of the others.
* `Store.take`: removes a record and gives it back.
* `Store.get?`, `Store.ofFamily`, `Store.findByIdentifier`: look-up.

## Main results

* `Store.ids_insert`, `Store.ids_remove`: the identifiers after a change.
* `Store.get?_insert_self`, `Store.get?_insert_of_ne`: what an insertion changes.
* `Store.get?_remove_self`, `Store.get?_remove_of_ne`: what a removal changes.
* `Store.take_eq`: a record that is taken out is the one that was stored.
-/

namespace AttributeFilter

structure Record where
  id : Uuid
  family : String
  values : List (String × Value)
  deriving DecidableEq, Repr

namespace Record

def value? (record : Record) (code : String) : Option Value :=
  Keyed.get? code record.values

end Record

/-- Records in the order in which their identifiers came. -/
structure Store where
  records : List Record
  ids_nodup : (records.map Record.id).Nodup

namespace Store

def empty : Store where
  records := []
  ids_nodup := List.nodup_nil

def ids (store : Store) : List Uuid :=
  store.records.map Record.id

def size (store : Store) : Nat :=
  store.records.length

def get? (store : Store) (id : Uuid) : Option Record :=
  store.records.find? (·.id == id)

/-- Writes a record over the one with its identifier, or at the end. -/
def put (record : Record) : List Record → List Record
  | [] => [record]
  | first :: rest =>
    if first.id = record.id then record :: rest else first :: put record rest

theorem map_id_put (record : Record) : (records : List Record) →
    (put record records).map Record.id =
      if record.id ∈ records.map Record.id then records.map Record.id
      else records.map Record.id ++ [record.id]
  | [] => by simp [put]
  | first :: rest => by
    by_cases h : first.id = record.id
    · simp [put, h]
    · have ih := map_id_put record rest
      by_cases hm : record.id ∈ rest.map Record.id
      · rw [if_pos hm] at ih
        rw [put, if_neg h, List.map_cons, List.map_cons, ih, if_pos (List.mem_cons_of_mem _ hm)]
      · rw [if_neg hm] at ih
        have hn : record.id ∉ first.id :: rest.map Record.id := by
          rw [List.mem_cons]
          rintro (e | e)
          · exact h e.symm
          · exact hm e
        rw [put, if_neg h, List.map_cons, List.map_cons, ih, if_neg hn, List.cons_append]

theorem nodup_map_id_put (record : Record) {records : List Record}
    (h : (records.map Record.id).Nodup) : ((put record records).map Record.id).Nodup := by
  rw [map_id_put]
  split
  · exact h
  · rename_i hm
    rw [List.nodup_append]
    refine ⟨h, by simp, ?_⟩
    intro a ha b hb
    rw [List.mem_singleton] at hb
    subst hb
    exact fun e => hm (e ▸ ha)

/-- Inserts a record; it replaces one with its identifier where that stands. -/
def insert (store : Store) (record : Record) : Store where
  records := put record store.records
  ids_nodup := nodup_map_id_put record store.ids_nodup

def insertAll (store : Store) (records : List Record) : Store :=
  records.foldl insert store

def remove (store : Store) (id : Uuid) : Store where
  records := store.records.filter (·.id != id)
  ids_nodup := List.Sublist.nodup (List.filter_sublist.map Record.id) store.ids_nodup

/-- Takes the record with the identifier out of some records. The others close up. -/
def pull (id : Uuid) : List Record → Option Record × List Record
  | [] => (none, [])
  | first :: rest =>
    if first.id = id then (some first, rest)
    else
      let (taken, others) := pull id rest
      (taken, first :: others)

theorem pull_sublist (id : Uuid) : (records : List Record) →
    (pull id records).2.Sublist records
  | [] => .refl []
  | first :: rest => by
    by_cases h : first.id = id
    · simp [pull, h]
    · simp [pull, h, pull_sublist id rest]

/-- Removes the record with the identifier and gives it back, if there is one. -/
def take (store : Store) (id : Uuid) : Option Record × Store :=
  ((pull id store.records).1,
    { records := (pull id store.records).2
      ids_nodup := List.Sublist.nodup ((pull_sublist id _).map Record.id) store.ids_nodup })

def ofFamily (store : Store) (family : String) : List Record :=
  store.records.filter (·.family == family)

/-- The first record of the family whose value at the family's identifier the text stands for. -/
def findByIdentifierValue (store : Store) (family : Family) (raw : String) : Option Record := do
  let identifier ← family.designated? .identifier
  (store.ofFamily family.code).find? fun record =>
    (record.value? identifier.code).any (·.matchesText raw)

/-- The record of the family whose own identifier the text is. -/
def findById (store : Store) (family : Family) (raw : String) : Option Record := do
  let id ← Uuid.ofText? raw.toList
  (store.get? id).filter (·.family == family.code)

/-- The record of the family that a text identifies: by the value of the family's identifier, or
else by the record's own identifier. -/
def findByIdentifier (store : Store) (family : Family) (raw : String) : Option Record :=
  (store.findByIdentifierValue family raw).or (store.findById family raw)

/-! ### Laws -/

theorem ids_insert (store : Store) (record : Record) :
    (store.insert record).ids =
      if record.id ∈ store.ids then store.ids else store.ids ++ [record.id] :=
  map_id_put record store.records

theorem ids_remove (store : Store) (id : Uuid) :
    (store.remove id).ids = store.ids.filter (· != id) := by
  simp [ids, remove, List.filter_map, Function.comp_def]

theorem find?_put_self (record : Record) : (records : List Record) →
    (put record records).find? (·.id == record.id) = some record
  | [] => by simp [put]
  | first :: rest => by
    by_cases h : first.id = record.id
    · simp [put, h]
    · simp [put, h, find?_put_self record rest]

theorem find?_put_of_ne (record : Record) {id : Uuid} (h : id ≠ record.id) :
    (records : List Record) →
      (put record records).find? (·.id == id) = records.find? (·.id == id)
  | [] => by simp [put, Ne.symm h]
  | first :: rest => by
    by_cases hf : first.id = record.id
    · simp [put, hf, Ne.symm h]
    · simp [put, hf, List.find?_cons, find?_put_of_ne record h rest]

@[simp] theorem get?_insert_self (store : Store) (record : Record) :
    (store.insert record).get? record.id = some record :=
  find?_put_self record store.records

theorem get?_insert_of_ne (store : Store) (record : Record) {id : Uuid} (h : id ≠ record.id) :
    (store.insert record).get? id = store.get? id :=
  find?_put_of_ne record h store.records

@[simp] theorem get?_remove_self (store : Store) (id : Uuid) :
    (store.remove id).get? id = none := by
  simp [get?, remove, List.find?_eq_none]

theorem get?_remove_of_ne (store : Store) {id other : Uuid} (h : other ≠ id) :
    (store.remove id).get? other = store.get? other := by
  simp only [get?, remove, List.find?_filter]
  congr 1
  funext record
  by_cases hr : record.id = other
  · simp [hr, h]
  · simp [hr]

theorem pull_fst (id : Uuid) : (records : List Record) →
    (pull id records).1 = records.find? (·.id == id)
  | [] => rfl
  | first :: rest => by
    by_cases h : first.id = id
    · simp [pull, h]
    · simp [pull, h, pull_fst id rest]

theorem pull_snd {id : Uuid} : {records : List Record} → (records.map Record.id).Nodup →
    (pull id records).2 = records.filter (·.id != id)
  | [], _ => rfl
  | first :: rest, hd => by
    rw [List.map_cons, List.nodup_cons] at hd
    by_cases h : first.id = id
    · subst h
      have hrest : ∀ record ∈ rest, record.id ≠ first.id := fun record hr he =>
        hd.1 (he ▸ List.mem_map_of_mem hr)
      have hkept : rest.filter (·.id != first.id) = rest :=
        List.filter_eq_self.2 fun record hr => by simpa using hrest record hr
      simp [pull, hkept]
    · simp [pull, h, pull_snd hd.2]

/-- A record that is taken out is the one that was stored. -/
theorem take_eq (store : Store) (id : Uuid) : store.take id = (store.get? id, store.remove id) := by
  simp only [take, get?, remove, pull_fst, pull_snd store.ids_nodup]

end Store

end AttributeFilter
