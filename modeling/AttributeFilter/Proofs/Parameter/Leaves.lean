import AttributeFilter.Parameter.Basic
import AttributeFilter.Proofs.Keyed
import Mathlib.Data.List.Induction

/-!
# The texts in a parameter tree

A parameter tree is known by its texts, each with the steps that lead to it, as long as every list
item holds just one text and nothing is empty. Writing these texts one after the other where they
stand makes the tree again: an appending step always starts a new item, and the texts below one name
come together.

## Main definitions

* `Parameter.Leaf`, `Parameter.leaves`: the texts of a tree with the steps to them, depth first.
* `Parameter.Shaped`: a tree without empty lists and maps, whose names can stand between brackets
  and whose list items hold one text each.
* `Parameter.writeAll`: writing texts one after the other.

## Main results

* `Parameter.leaves_assign_blank`: a text written into nothing is the only one of the tree.
* `Parameter.mem_leaves_assign`, `Parameter.Shaped.assign`: writing a text adds no other and leaves a
  tree in shape.
* `Parameter.writeAll_leaves`: the texts of a tree make the tree again.
-/

namespace AttributeFilter.Parameter

/-- A text in a parameter tree, with the steps that lead to it. -/
structure Leaf where
  steps : List Segment
  text : String
  deriving DecidableEq, Repr

/-- The text as seen from one step further out. -/
def Leaf.under (segment : Segment) (leaf : Leaf) : Leaf :=
  { leaf with steps := segment :: leaf.steps }

mutual

/-- The texts of a tree with the steps that lead to them, depth first and in order. -/
def leaves : Parameter → List Leaf
  | scalar text => [{ steps := [], text }]
  | list items => leavesOfItems items
  | map entries => leavesOfEntries entries

def leavesOfItems : List Parameter → List Leaf
  | [] => []
  | item :: rest => (leaves item).map (Leaf.under .append) ++ leavesOfItems rest

def leavesOfEntries : List (String × Parameter) → List Leaf
  | [] => []
  | (name, value) :: rest => (leaves value).map (Leaf.under (.key name)) ++ leavesOfEntries rest

end

/-- A name can stand between brackets: it is not empty, which would append, and has no closing
bracket. -/
def IsBracketName (name : String) : Prop :=
  name ≠ "" ∧ ']' ∉ name.toList

instance (name : String) : Decidable (IsBracketName name) :=
  inferInstanceAs (Decidable (_ ∧ _))

/-- A tree without empty lists and maps, in which names are distinct and can stand between
brackets, and in which each list item holds just one text. -/
inductive Shaped : Parameter → Prop
  | scalar (text : String) : Shaped (scalar text)
  | list {items : List Parameter} (nonempty : items ≠ [])
      (single : ∀ item ∈ items, item.leaves.length = 1) (shaped : ∀ item ∈ items, Shaped item) :
      Shaped (list items)
  | map {entries : List (String × Parameter)} (nonempty : entries ≠ [])
      (distinct : (Keyed.keys entries).Nodup)
      (named : ∀ name ∈ Keyed.keys entries, IsBracketName name)
      (shaped : ∀ entry ∈ entries, Shaped entry.2) : Shaped (map entries)

/-- Writes texts one after the other, each where its steps lead. -/
def writeAll (texts : List Leaf) (slot : Parameter) : Parameter :=
  texts.foldl (fun slot leaf => assign leaf.text leaf.steps slot) slot

/-! ### Texts of lists and maps -/

theorem leavesOfItems_eq_flatMap : (items : List Parameter) →
    leavesOfItems items = items.flatMap fun item => item.leaves.map (Leaf.under .append)
  | [] => rfl
  | item :: rest => by rw [leavesOfItems, leavesOfItems_eq_flatMap rest, List.flatMap_cons]

theorem leavesOfEntries_eq_flatMap : (entries : List (String × Parameter)) →
    leavesOfEntries entries =
      entries.flatMap fun entry => entry.2.leaves.map (Leaf.under (.key entry.1))
  | [] => rfl
  | (name, value) :: rest => by
    rw [leavesOfEntries, leavesOfEntries_eq_flatMap rest, List.flatMap_cons]

theorem mem_leavesOfItems_iff {leaf : Leaf} {items : List Parameter} :
    leaf ∈ leavesOfItems items ↔
      ∃ item ∈ items, ∃ inner ∈ item.leaves, inner.under .append = leaf := by
  simp only [leavesOfItems_eq_flatMap, List.mem_flatMap, List.mem_map]

theorem mem_leavesOfEntries_iff {leaf : Leaf} {entries : List (String × Parameter)} :
    leaf ∈ leavesOfEntries entries ↔
      ∃ entry ∈ entries, ∃ inner ∈ entry.2.leaves, inner.under (.key entry.1) = leaf := by
  simp only [leavesOfEntries_eq_flatMap, List.mem_flatMap, List.mem_map]

theorem leavesOfItems_subset (slot : Parameter) : leavesOfItems slot.items ⊆ slot.leaves := by
  cases slot with
  | list items => exact List.Subset.refl _
  | scalar text => exact List.nil_subset _
  | map entries => exact List.nil_subset _

theorem leavesOfEntries_subset (slot : Parameter) : leavesOfEntries slot.entries ⊆ slot.leaves := by
  cases slot with
  | map entries => exact List.Subset.refl _
  | scalar text => exact List.nil_subset _
  | list items => exact List.nil_subset _

@[simp] theorem items_blank : blank.items = [] := rfl

@[simp] theorem entries_blank : blank.entries = [] := rfl

/-- A text written into nothing is the only one of the tree, at the steps it was written to. -/
theorem leaves_assign_blank (text : String) : (steps : List Segment) →
    (assign text steps blank).leaves = [{ steps, text }]
  | [] => rfl
  | .append :: rest => by
    have ih := leaves_assign_blank text rest
    rw [assign_append, items_blank, List.nil_append, leaves, leavesOfItems, leavesOfItems, ih]
    rfl
  | .key name :: rest => by
    have ih := leaves_assign_blank text rest
    rw [assign_key, entries_blank, Keyed.update, leaves, leavesOfEntries, leavesOfEntries, ih]
    rfl

/-- A tree of the right shape holds a text. -/
theorem Shaped.leaves_ne_nil {parameter : Parameter} (h : Shaped parameter) :
    parameter.leaves ≠ [] := by
  induction h with
  | scalar text => simp [leaves]
  | @list items nonempty single _ _ =>
    obtain ⟨item, hitem⟩ := List.exists_mem_of_ne_nil items nonempty
    have hone := single item hitem
    intro hnil
    rw [leaves, leavesOfItems_eq_flatMap, List.flatMap_eq_nil_iff] at hnil
    rw [List.map_eq_nil_iff.1 (hnil item hitem)] at hone
    exact Nat.zero_ne_one hone
  | @map entries nonempty _ _ _ ih =>
    obtain ⟨entry, hentry⟩ := List.exists_mem_of_ne_nil entries nonempty
    intro hnil
    rw [leaves, leavesOfEntries_eq_flatMap, List.flatMap_eq_nil_iff] at hnil
    exact ih entry hentry (List.map_eq_nil_iff.1 (hnil entry hentry))

/-- The names on the way to a text of a tree of the right shape can stand between brackets. -/
theorem Shaped.isBracketName {parameter : Parameter} (h : Shaped parameter) {leaf : Leaf}
    (hleaf : leaf ∈ parameter.leaves) {name : String} (hname : .key name ∈ leaf.steps) :
    IsBracketName name := by
  induction h generalizing leaf with
  | scalar text =>
    rw [leaves, List.mem_singleton] at hleaf
    rw [hleaf] at hname
    exact absurd hname List.not_mem_nil
  | list _ _ _ ih =>
    obtain ⟨item, hitem, inner, hinner, rfl⟩ := mem_leavesOfItems_iff.1 hleaf
    rcases List.mem_cons.1 hname with hstep | hrest
    · nomatch hstep
    · exact ih item hitem hinner hrest
  | map _ _ named _ ih =>
    obtain ⟨entry, hentry, inner, hinner, rfl⟩ := mem_leavesOfEntries_iff.1 hleaf
    rcases List.mem_cons.1 hname with hstep | hrest
    · cases hstep
      exact named entry.1 (Keyed.mem_keys_of_mem hentry)
    · exact ih entry hentry hinner hrest

/-! ### Writing one text -/

/-- Writing a text adds no other: a text of the new tree is the one written, at the steps it was
written to, or was there before. -/
theorem mem_leaves_assign {text : String} {leaf : Leaf} : {steps : List Segment} →
    {slot : Parameter} → leaf ∈ (assign text steps slot).leaves →
      leaf = { steps, text } ∨ leaf ∈ slot.leaves
  | [], _, h => .inl (List.mem_singleton.1 h)
  | .append :: rest, slot, h => by
    obtain ⟨item, hitem, inner, hinner, rfl⟩ := mem_leavesOfItems_iff.1 h
    rcases List.mem_append.1 hitem with hold | hnew
    · have hmem := mem_leavesOfItems_iff.2 ⟨item, hold, inner, hinner, rfl⟩
      exact .inr (leavesOfItems_subset slot hmem)
    · rw [List.mem_singleton.1 hnew, leaves_assign_blank, List.mem_singleton] at hinner
      exact .inl (hinner ▸ rfl)
  | .key name :: rest, slot, h => by
    have hstart : ∀ entry ∈ slot.entries, ∀ inner ∈ entry.2.leaves,
        inner.under (.key entry.1) = { steps := .key name :: rest, text } ∨
          inner.under (.key entry.1) ∈ slot.leaves := by
      intro entry hentry inner hinner
      have hmem := mem_leavesOfEntries_iff.2 ⟨entry, hentry, inner, hinner, rfl⟩
      exact .inr (leavesOfEntries_subset slot hmem)
    obtain ⟨entry, hentry, inner, hinner, rfl⟩ := mem_leavesOfEntries_iff.1 h
    refine Keyed.forall_mem_update hstart ?_ ?_ entry hentry inner hinner
    · intro inner hinner
      rw [leaves_assign_blank, List.mem_singleton] at hinner
      exact .inl (hinner ▸ rfl)
    · intro value hvalue inner hinner
      rcases mem_leaves_assign hinner with rfl | hold
      · exact .inl rfl
      · exact hvalue inner hold

theorem shaped_blank : Shaped blank :=
  .scalar ""

/-- The items that are kept when a list is extended. -/
theorem Shaped.of_mem_items {slot : Parameter} (h : Shaped slot) {item : Parameter}
    (hitem : item ∈ slot.items) : item.leaves.length = 1 ∧ Shaped item := by
  cases h with
  | list _ single shaped => exact ⟨single item hitem, shaped item hitem⟩
  | scalar _ => exact absurd hitem List.not_mem_nil
  | map _ _ _ _ => exact absurd hitem List.not_mem_nil

/-- The entries that are kept when a map is extended. -/
theorem Shaped.entries {slot : Parameter} (h : Shaped slot) :
    (Keyed.keys slot.entries).Nodup ∧ (∀ name ∈ Keyed.keys slot.entries, IsBracketName name) ∧
      ∀ entry ∈ slot.entries, Shaped entry.2 := by
  cases h with
  | map _ distinct named shaped => exact ⟨distinct, named, shaped⟩
  | scalar _ => simp [Parameter.entries]
  | list _ _ _ => simp [Parameter.entries]

/-- Writing a text leaves a tree in shape, whichever kinds of parameters give way to others on the
way. -/
theorem Shaped.assign (text : String) : {steps : List Segment} →
    (∀ name, Segment.key name ∈ steps → IsBracketName name) → {slot : Parameter} → Shaped slot →
      Shaped (assign text steps slot)
  | [], _, _, _ => .scalar text
  | .append :: rest, hnames, slot, hslot => by
    have hrest := fun name hname => hnames name (List.mem_cons_of_mem _ hname)
    have hlast := Shaped.assign text hrest shaped_blank
    have hlength : (Parameter.assign text rest blank).leaves.length = 1 := by
      rw [leaves_assign_blank, List.length_singleton]
    rw [assign_append]
    refine .list (List.append_ne_nil_of_right_ne_nil _ (List.cons_ne_nil _ _)) ?_ ?_
    · exact List.forall_mem_append.2
        ⟨fun item hitem => (hslot.of_mem_items hitem).1, List.forall_mem_singleton.2 hlength⟩
    · exact List.forall_mem_append.2
        ⟨fun item hitem => (hslot.of_mem_items hitem).2, List.forall_mem_singleton.2 hlast⟩
  | .key name :: rest, hnames, slot, hslot => by
    have hrest := fun name hname => hnames name (List.mem_cons_of_mem _ hname)
    obtain ⟨hdistinct, hnamed, hshaped⟩ := hslot.entries
    rw [assign_key]
    refine .map (Keyed.update_ne_nil _ _ _ _) (Keyed.nodup_keys_update _ _ _ hdistinct) ?_ ?_
    · intro other hother
      rcases Keyed.mem_keys_update_iff.1 hother with rfl | hold
      · exact hnames other List.mem_cons_self
      · exact hnamed other hold
    · exact Keyed.forall_mem_update hshaped (Shaped.assign text hrest shaped_blank)
        fun value hvalue => Shaped.assign text hrest hvalue

/-! ### Writing the texts of a tree -/

theorem writeAll_append (first second : List Leaf) (slot : Parameter) :
    writeAll (first ++ second) slot = writeAll second (writeAll first slot) :=
  List.foldl_append

/-- Writing texts under a new name adds one entry: the first text appends it, and the others find
it in place. -/
theorem writeAll_under_key {name : String} {texts : List Leaf} (h : texts ≠ [])
    (slot : Parameter) (hname : name ∉ Keyed.keys slot.entries) :
    writeAll (texts.map (Leaf.under (.key name))) slot =
      map (slot.entries ++ [(name, writeAll texts blank)]) := by
  induction texts using List.reverseRecOn with
  | nil => exact absurd rfl h
  | append_singleton texts last ih =>
    rw [List.map_append, writeAll_append, writeAll_append, List.map_singleton]
    rcases eq_or_ne texts [] with rfl | hne
    · show map (Keyed.update name blank (assign last.text last.steps) slot.entries) = _
      rw [Keyed.update_of_notMem hname]
      rfl
    · rw [ih hne]
      show map (Keyed.update name blank (assign last.text last.steps) (slot.entries ++ _)) = _
      rw [Keyed.update_append_of_notMem hname, Keyed.update, if_pos rfl]
      rfl

/-- Writing the texts of items appends the items: each has a single text, which starts it anew. -/
theorem writeAll_leavesOfItems {items : List Parameter}
    (single : ∀ item ∈ items, item.leaves.length = 1)
    (hwrite : ∀ item ∈ items, writeAll item.leaves blank = item) (known : List Parameter) :
    writeAll (leavesOfItems items) (list known) = list (known ++ items) := by
  induction items generalizing known with
  | nil => rw [List.append_nil]; rfl
  | cons item rest ih =>
    rw [List.forall_mem_cons] at single hwrite
    obtain ⟨leaf, hleaf⟩ := List.length_eq_one_iff.1 single.1
    have hitem : assign leaf.text leaf.steps blank = item := by
      rw [← hwrite.1, hleaf]
      rfl
    rw [leavesOfItems, hleaf, writeAll_append]
    show writeAll (leavesOfItems rest) (list (known ++ [assign leaf.text leaf.steps blank])) = _
    rw [hitem, ih single.2 hwrite.2, List.append_assoc, List.singleton_append]

/-- Writing the texts of entries with new names appends the entries. -/
theorem writeAll_leavesOfEntries {entries : List (String × Parameter)}
    (holds : ∀ entry ∈ entries, entry.2.leaves ≠ [])
    (hwrite : ∀ entry ∈ entries, writeAll entry.2.leaves blank = entry.2)
    (known : List (String × Parameter)) (distinct : (Keyed.keys (known ++ entries)).Nodup) :
    writeAll (leavesOfEntries entries) (map known) = map (known ++ entries) := by
  induction entries generalizing known with
  | nil => rw [List.append_nil]; rfl
  | cons entry rest ih =>
    obtain ⟨name, value⟩ := entry
    rw [List.forall_mem_cons] at holds hwrite
    have hname : name ∉ Keyed.keys known := by
      rw [Keyed.keys_append, List.nodup_append] at distinct
      exact fun hmem => distinct.2.2 name hmem name List.mem_cons_self rfl
    rw [← List.singleton_append, ← List.append_assoc] at distinct ⊢
    rw [List.singleton_append, leavesOfEntries, writeAll_append,
      writeAll_under_key holds.1 (map known) hname, hwrite.1]
    exact ih holds.2 hwrite.2 _ distinct

/-- The texts of a tree of the right shape, written one after the other into nothing, make the tree
again. -/
theorem writeAll_leaves {parameter : Parameter} (h : Shaped parameter) :
    writeAll parameter.leaves blank = parameter := by
  induction h with
  | scalar text => rfl
  | @list items nonempty single _ ih =>
    obtain ⟨item, rest, rfl⟩ := List.exists_cons_of_ne_nil nonempty
    -- the first text makes a list of what was nothing before
    have hstart : writeAll (leavesOfItems (item :: rest)) blank =
        writeAll (leavesOfItems (item :: rest)) (list []) := by
      obtain ⟨leaf, hleaf⟩ := List.length_eq_one_iff.1 (single item List.mem_cons_self)
      rw [leavesOfItems, hleaf]
      rfl
    rw [leaves, hstart, writeAll_leavesOfItems single ih, List.nil_append]
  | @map entries nonempty distinct _ shaped ih =>
    obtain ⟨entry, rest, rfl⟩ := List.exists_cons_of_ne_nil nonempty
    have holds := fun entry hentry => (shaped entry hentry).leaves_ne_nil
    -- the first text makes a map of what was nothing before
    have hstart : writeAll (leavesOfEntries (entry :: rest)) blank =
        writeAll (leavesOfEntries (entry :: rest)) (map []) := by
      obtain ⟨leaf, more, hleaf⟩ :=
        List.exists_cons_of_ne_nil (holds entry List.mem_cons_self)
      rw [leavesOfEntries, hleaf]
      rfl
    rw [leaves, hstart, writeAll_leavesOfEntries holds ih [] distinct, List.nil_append]

end AttributeFilter.Parameter
