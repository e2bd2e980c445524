import AttributeFilter.Proofs.Parameter.RoundTrip

/-!
# Writing at the end of steps

The steps into a parameter tree can be followed to read what is there: a name leads to the entry of
a map, an appending step to the last item of a list. A text that is written at the end of steps is
what these steps lead to afterwards. On the way, a list keeps its items and takes one more, and a
map keeps its other entries where they stand. Only a parameter of another kind than the next step
needs is lost, and in its place there is nothing but the way to the text. All this together is true
of one tree only, which is the one that writing makes.

## Main definitions

* `Parameter.at?`: the parameter that steps lead to.
* `Parameter.slotAt`: the parameter that writing comes upon at the end of steps.
* `Parameter.pathTo`: the tree with nothing in it but a text at the end of steps.
* `Parameter.Extends`, `Parameter.Written`: what becomes of a parameter at one step, and of a tree
  at all of them.
* `Parameter.Diverge`: two ways that part at a name.

## Main results

* `Parameter.at?_assign_append`: what the steps lead to on the way of a text that is written.
* `Parameter.written_iff_eq_assign`: the tree that writing makes is the only one that keeps all that
  does not have to go.
* `Parameter.at?_assign_of_diverge`, `Parameter.at?_writeAll`: writing elsewhere leaves a text
  alone.
* `QueryText.at?_parse`: the text of a pair is where the pair says, if all later pairs of the query
  text go other ways.
-/

namespace AttributeFilter

namespace Parameter

variable {text : String} {step : Segment} {steps rest : List Segment}
  {slot tree changed : Parameter}

/-! ### Reading -/

/-- The parameter that steps lead to: a name leads to the entry of a map, an appending step to the
last item of a list. -/
def at? : List Segment → Parameter → Option Parameter
  | [], tree => some tree
  | .append :: rest, tree => tree.items.getLast?.bind (at? rest)
  | .key name :: rest, tree => (Keyed.get? name tree.entries).bind (at? rest)

/-- The parameter that writing comes upon at the end of steps: the one that is there, or a blank one
if there is none. An appending step never leads to what was there, but to a new item. -/
def slotAt (steps : List Segment) (tree : Parameter) : Parameter :=
  if .append ∈ steps then blank else (at? steps tree).getD blank

theorem at?_blank : (steps : List Segment) → steps ≠ [] → at? steps blank = none
  | [], h => absurd rfl h
  | .append :: _, _ => rfl
  | .key _ :: _, _ => rfl

theorem slotAt_nil (tree : Parameter) : slotAt [] tree = tree := rfl

theorem slotAt_blank (steps : List Segment) : slotAt steps blank = blank := by
  rw [slotAt]
  split
  · rfl
  · rcases eq_or_ne steps [] with rfl | hsteps
    · rfl
    · rw [at?_blank steps hsteps, Option.getD_none]

theorem slotAt_append (rest : List Segment) (tree : Parameter) :
    slotAt (.append :: rest) tree = blank :=
  if_pos List.mem_cons_self

/-- Below a name, writing goes on from what the name holds. -/
theorem slotAt_key (name : String) (rest : List Segment) (tree : Parameter) :
    slotAt (.key name :: rest) tree = slotAt rest ((Keyed.get? name tree.entries).getD blank) := by
  have hstep : Segment.append ∈ .key name :: rest ↔ Segment.append ∈ rest := by simp
  cases hheld : Keyed.get? name tree.entries with
  | none =>
    rw [Option.getD_none, slotAt_blank, slotAt, at?, hheld, Option.bind_none, Option.getD_none,
      ite_self]
  | some held => simp only [slotAt, hstep, at?, hheld, Option.bind_some, Option.getD_some]

/-! ### The way to a text -/

/-- The tree with nothing in it but a text at the end of steps. -/
def pathTo (text : String) : List Segment → Parameter
  | [] => scalar text
  | .append :: rest => list [pathTo text rest]
  | .key name :: rest => map [(name, pathTo text rest)]

/-- Whether a step leads into a parameter of this kind: an appending step into a list, a name into a
map. -/
def Segment.enters : Segment → Parameter → Bool
  | .append, list _ => true
  | .key _, map _ => true
  | _, _ => false

theorem assign_blank (text : String) : (steps : List Segment) →
    assign text steps blank = pathTo text steps
  | [] => rfl
  | .append :: rest => by
    rw [assign_append, items_blank, List.nil_append, assign_blank text rest, pathTo]
  | .key name :: rest => by
    rw [assign_key, entries_blank, Keyed.update, assign_blank text rest, pathTo]

/-- A parameter of another kind than the step needs gives way to the path. -/
theorem assign_of_not_enters (h : step.enters slot = false) :
    assign text (step :: rest) slot = pathTo text (step :: rest) := by
  cases step with
  | append =>
    have hitems : slot.items = blank.items := by
      cases slot with
      | list items => nomatch h
      | scalar _ => rfl
      | map _ => rfl
    rw [assign_append, hitems, ← assign_append, assign_blank]
  | key name =>
    have hentries : slot.entries = blank.entries := by
      cases slot with
      | map entries => nomatch h
      | scalar _ => rfl
      | list _ => rfl
    rw [assign_key, hentries, ← assign_key, assign_blank]

/-! ### What is kept -/

/-- What becomes of a parameter where a step goes on, with more steps behind it to a text. A list
keeps its items and takes one more, in which there is only the text; in a map, one value is set; and
a parameter of another kind is replaced by the path. -/
inductive Extends (text : String) (rest : List Segment) : Segment → Parameter → Parameter → Prop
  | item (items : List Parameter) :
      Extends text rest .append (list items) (list (items ++ [pathTo text rest]))
  | entry {name : String} {value : Parameter} {entries changed : List (String × Parameter)}
      (h : Keyed.Sets name value entries changed) :
      Extends text rest (.key name) (map entries) (map changed)
  | path {step : Segment} {slot : Parameter} (h : step.enters slot = false) :
      Extends text rest step slot (pathTo text (step :: rest))

/-- A text is written at the end of steps: that is where it can be read, and wherever the steps go
on, what was there is extended. -/
structure Written (text : String) (steps : List Segment) (tree changed : Parameter) : Prop where
  read : at? steps changed = some (scalar text)
  along : ∀ before step rest, steps = before ++ step :: rest →
    ∃ extended, at? before changed = some extended ∧
      Extends text rest step (slotAt before tree) extended

/-- On the way of a text that is written, the steps lead to what writing makes of the parameter that
it comes upon. -/
theorem at?_assign_append (text : String) (before rest : List Segment) (tree : Parameter) :
    at? before (assign text (before ++ rest) tree) =
      some (assign text rest (slotAt before tree)) := by
  induction before generalizing tree with
  | nil => rfl
  | cons step before ih =>
    cases step with
    | append =>
      -- the item that is read is the new one, so what the tree held before does not count any more
      calc at? (.append :: before) (assign text (.append :: (before ++ rest)) tree)
          = (tree.items ++ [assign text (before ++ rest) blank]).getLast?.bind (at? before) := rfl
        _ = at? before (assign text (before ++ rest) blank) := by
          rw [List.getLast?_concat, Option.bind_some]
        _ = some (assign text rest (slotAt (.append :: before) tree)) := by
          rw [ih, slotAt_blank, slotAt_append]
    | key name =>
      have hheld := Keyed.get?_update_self name blank (assign text (before ++ rest)) tree.entries
      rw [List.cons_append, assign_key, at?, entries, hheld, Option.bind_some, ih, slotAt_key]

theorem extends_assign (text : String) (step : Segment) (rest : List Segment) (slot : Parameter) :
    Extends text rest step slot (assign text (step :: rest) slot) := by
  cases henters : step.enters slot with
  | false =>
    rw [assign_of_not_enters henters]
    exact .path henters
  | true =>
    match step, slot with
    | .append, list items =>
      rw [assign_append, assign_blank]
      exact .item items
    | .key name, map entries =>
      rw [assign_key, Keyed.update_eq_insert]
      exact .entry (Keyed.sets_insert name _ entries)

theorem written_assign (text : String) (steps : List Segment) (tree : Parameter) :
    Written text steps tree (assign text steps tree) where
  read := by
    have hread := at?_assign_append text steps [] tree
    rwa [List.append_nil, assign_nil] at hread
  along := by
    rintro before step rest rfl
    exact ⟨_, at?_assign_append text before (step :: rest) tree, extends_assign text step rest _⟩

/-- What is written below a name is written into what the name holds. -/
theorem Written.of_entry {name : String} {value : Parameter}
    {entries changed : List (String × Parameter)}
    (h : Written text (.key name :: rest) (map entries) (map changed))
    (hvalue : Keyed.get? name changed = some value) :
    Written text rest ((Keyed.get? name entries).getD blank) value := by
  have hbelow (steps : List Segment) :
      at? (.key name :: steps) (map changed) = at? steps value := by
    rw [at?, Parameter.entries, hvalue, Option.bind_some]
  refine ⟨(hbelow rest).symm.trans h.read, ?_⟩
  rintro before step behind rfl
  obtain ⟨extended, hextended, hstep⟩ := h.along (.key name :: before) step behind rfl
  rw [hbelow] at hextended
  rw [slotAt_key] at hstep
  exact ⟨extended, hextended, hstep⟩

/-- Nothing else is written than what the text makes of the tree. -/
theorem Written.eq_assign (h : Written text steps tree changed) :
    changed = assign text steps tree := by
  induction steps generalizing tree changed with
  | nil => exact Option.some.inj h.read
  | cons step rest ih =>
    obtain ⟨extended, hextended, hstep⟩ := h.along [] step rest rfl
    obtain rfl : changed = extended := Option.some.inj hextended
    rw [slotAt_nil] at hstep
    -- a new item and a path leave nothing open; a value that is set is known from below its name
    cases hstep with
    | item known => rw [assign_append, assign_blank, Parameter.items]
    | path henters => exact (assign_of_not_enters henters).symm
    | @entry name value entries changed hsets =>
      obtain rfl := Keyed.sets_iff_eq_insert.1 hsets
      have hvalue := ih (h.of_entry (Keyed.get?_insert_self name value entries))
      rw [assign_key, Keyed.update_eq_insert, hvalue, Parameter.entries]

/-- **Writing is a well-behaved update.** After a text is written, its steps lead to it. Each
list on the way has its items in front and one more behind them; each map has its other entries as
they were, and an entry that is new stands last; and where a parameter of another kind was, there is
nothing but the rest of the way. No other tree is so. -/
theorem written_iff_eq_assign :
    Written text steps tree changed ↔ changed = assign text steps tree := by
  constructor
  · exact Written.eq_assign
  · rintro rfl
    exact written_assign text steps tree

/-- A list on the way keeps its last item, though it is a map with the name that comes next, and a
text on the way is lost. -/
example : assign "x" [.key "a", .append, .key "b"]
      (map [("a", list [map [("b", scalar "1")]]), ("c", scalar "2")]) =
    map [("a", list [map [("b", scalar "1")], map [("b", scalar "x")]]), ("c", scalar "2")] ∧
    assign "x" [.key "c", .key "b"] (map [("c", scalar "2")]) =
      map [("c", map [("b", scalar "x")])] :=
  ⟨rfl, rfl⟩

/-! ### Writing elsewhere -/

/-- Two ways lead through the same names, and then each goes on under a name of its own. -/
inductive Diverge : List Segment → List Segment → Prop
  | here {name other : String} (h : name ≠ other) (rest rest' : List Segment) :
      Diverge (.key name :: rest) (.key other :: rest')
  | later (name : String) {rest rest' : List Segment} (h : Diverge rest rest') :
      Diverge (.key name :: rest) (.key name :: rest')

theorem Diverge.ne_nil {others : List Segment} (h : Diverge steps others) : others ≠ [] := by
  cases h <;> exact List.cons_ne_nil _ _

/-- Writing leaves alone what other steps lead to, even where a parameter on the way gives way. -/
theorem at?_assign_of_diverge {others : List Segment} (h : Diverge steps others) (text : String)
    (tree : Parameter) : at? others (assign text steps tree) = at? others tree := by
  induction h generalizing tree with
  | here hne rest rest' =>
    rw [assign_key, at?, at?, entries, Keyed.get?_update_of_ne (Ne.symm hne)]
  | @later name rest rest' hrest ih =>
    have hheld := Keyed.get?_update_self name blank (assign text rest) tree.entries
    rw [assign_key, at?, at?, entries, hheld, Option.bind_some, ih]
    cases Keyed.get? name tree.entries with
    | none => exact at?_blank rest' hrest.ne_nil
    | some held => rfl

/-- A text stays where it was written, if all later ones go other ways. -/
theorem at?_writeAll {earlier later : List Leaf} {leaf : Leaf}
    (h : ∀ other ∈ later, Diverge other.steps leaf.steps) (slot : Parameter) :
    at? leaf.steps (writeAll (earlier ++ leaf :: later) slot) = some (scalar leaf.text) := by
  induction later using List.reverseRecOn with
  | nil =>
    rw [writeAll_append]
    exact (written_assign leaf.text leaf.steps _).read
  | append_singleton later last ih =>
    rw [List.forall_mem_append, List.forall_mem_singleton] at h
    rw [← List.cons_append, ← List.append_assoc, writeAll_append]
    exact (at?_assign_of_diverge h.2 last.text _).trans (ih h.1)

end Parameter

/-- The text of a pair is where the pair says, if all later pairs of the query text go other
ways. -/
theorem QueryText.at?_parse {mode : KeyMode} {text : String} {earlier later : List Pair}
    {pair : Pair} (hpairs : pairs mode text = earlier ++ pair :: later)
    (h : ∀ other ∈ later, Parameter.Diverge other.leaf.steps pair.leaf.steps) :
    Parameter.at? pair.leaf.steps (.map (parse mode text)) = some (.scalar pair.text) := by
  rw [parse, map_foldl_write, hpairs, List.map_append, List.map_cons]
  exact Parameter.at?_writeAll (List.forall_mem_map.2 h) (.map [])

end AttributeFilter
