import AttributeFilter.Toml.Basic

/-!
# Tables under construction

While a settings file is read, a table may still grow: a table that was only named on the way to
another one can be opened later, and one that was made by a dotted key takes more dotted keys. A
value that is written in place never grows.

## Main definitions

* `Toml.Origin`: how a table came to be.
* `Toml.Node`, `Toml.Nodes`: values, tables and series of tables under construction.
* `Toml.within`: changes the table at the end of a path.
* `Toml.assign`, `Toml.openTable`, `Toml.openSeries`: the three kinds of statements.
* `Toml.Node.close`: the finished value.
-/

namespace AttributeFilter.Toml

/-- How a table came to be: named on the way to another table, made by a dotted key, or opened. -/
inductive Origin
  | passed
  | dotted
  | opened
  deriving DecidableEq, Repr

/-- A value, a table or a series of tables under construction. -/
inductive Node
  | leaf (value : Toml)
  | table (origin : Origin) (entries : List (String × Node))
  | series (tables : List (List (String × Node)))
  deriving Repr, Inhabited

abbrev Nodes := List (String × Node)

/-- Changes what stands under a name, in place, or puts something new at the end. -/
def alter (name : String) (change : Option Node → Option Node) : Nodes → Option Nodes
  | [] => (change none).map fun node => [(name, node)]
  | (key, node) :: rest =>
    if key = name then (change (some node)).map fun changed => (key, changed) :: rest
    else (alter name change rest).map ((key, node) :: ·)

def alterLast {α : Type} (change : α → Option α) : List α → Option (List α)
  | [] => none
  | [last] => (change last).map fun changed => [changed]
  | first :: rest => (alterLast change rest).map (first :: ·)

/-- Changes the table at the end of a path. Tables that are missing on the way are made, of the
given origin. A series is entered at its last table; a value is not entered, nor is an opened table
on a dotted way. -/
def within (made : Origin) (change : Origin → Nodes → Option Nodes) :
    List String → Origin → Nodes → Option Nodes
  | [], origin, entries => change origin entries
  | name :: rest, _, entries =>
    alter name (fun found =>
      match found with
      | none => (within made change rest made []).map (Node.table made)
      | some (.table origin inner) =>
        if made = .dotted ∧ origin = .opened then none
        else (within made change rest origin inner).map (Node.table origin)
      | some (.series tables) =>
        (alterLast (within made change rest .opened) tables).map Node.series
      | some (.leaf _) => none) entries

/-- Writes a value under a dotted key. The last table on the way must come from a dotted key
itself, unless the key has no dots; the name must be new. -/
def assign (path : List String) (name : String) (value : Toml) (entries : Nodes) : Option Nodes :=
  within .dotted (fun origin inner =>
    if (origin = .dotted ↔ path ≠ []) ∧ !Keyed.contains name inner then
      some (inner ++ [(name, .leaf value)])
    else none) path .opened entries

/-- Opens a table and fills it. A table that was only passed so far keeps its entries, and takes
its place anew at the end. -/
def openTable (path : List String) (name : String) (fill : Nodes → Option Nodes)
    (entries : Nodes) : Option Nodes :=
  within .passed (fun _ inner =>
    match Keyed.get? name inner with
    | none => (fill []).map fun filled => inner ++ [(name, .table .opened filled)]
    | some (.table .passed known) =>
      (fill known).map fun filled =>
        inner.filter (·.1 != name) ++ [(name, .table .opened filled)]
    | some _ => none) path .opened entries

/-- Adds a table to a series and fills it. -/
def openSeries (path : List String) (name : String) (fill : Nodes → Option Nodes)
    (entries : Nodes) : Option Nodes :=
  within .passed (fun _ inner =>
    alter name (fun found =>
      match found with
      | none => (fill []).map fun filled => .series [filled]
      | some (.series tables) => (fill []).map fun filled => .series (tables ++ [filled])
      | some _ => none) inner) path .opened entries

mutual

def Node.close : Node → Toml
  | .leaf value => value
  | .table _ entries => .table (closeEntries entries)
  | .series tables => .array (closeTables tables)

def closeEntries : List (String × Node) → List (String × Toml)
  | [] => []
  | (name, node) :: rest => (name, node.close) :: closeEntries rest

def closeTables : List (List (String × Node)) → List Toml
  | [] => []
  | entries :: rest => .table (closeEntries entries) :: closeTables rest

end

end AttributeFilter.Toml
