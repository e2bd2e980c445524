import AttributeFilter.Toml.Scalar
import AttributeFilter.Toml.Tree

/-!
# Reading settings files

A settings file is a list of statements, each on a line of its own: a value under a key, a table
that is opened, or a table that is added to a series. Values up to the next opened table belong to
the table opened last.

## Main definitions

* `Toml.key`: a dotted key of at most 80 names.
* `Toml.value`: a value of any kind; arrays and tables in place are nested at most 80 deep.
* `Toml.Statement`, `Toml.statements`: the statements of a text.
* `Toml.build`: the table that statements describe.
* `Toml.ofText?`: the table that a text describes.
-/

namespace AttributeFilter.Toml

/-! ### Keys -/

/-- Whether the character may stand in a key without quotes. -/
def isBareChar (c : Char) : Bool :=
  c.isAlphanum || c = '_' || c = '-'

def keyName (text : List Char) : Option (String × List Char) :=
  match text with
  | '"' :: _ => quoted text
  | '\'' :: _ => quoted text
  | _ =>
    let bare := text.takeWhile isBareChar
    if bare.isEmpty then none else some (String.ofList bare, text.dropWhile isBareChar)

/-- A dotted key of at most so many names: the names on the way, and the last name. -/
def keyUpTo : Nat → Scan (List String × String)
  | 0, _ => none
  | count + 1, text => do
    let (name, rest) ← keyName (skipSpaces text)
    match skipSpaces rest with
    | '.' :: more =>
      let ((path, last), rest) ← keyUpTo count more
      return ((name :: path, last), rest)
    | rest => return (([], name), rest)

def maxNames : Nat := 80

/-- A dotted key, and the blanks around it. -/
def key : Scan (List String × String) :=
  keyUpTo maxNames

/-! ### Values -/

/-- The items of an array, at most so many, up to the closing bracket. -/
def itemsUpTo (item : Scan Toml) : Nat → Scan (List Toml)
  | 0, _ => none
  | count + 1, text => do
    match ← filler false text with
    | ']' :: rest => return ([], rest)
    | text =>
      let (first, rest) ← item text
      match ← filler false rest with
      | ',' :: rest =>
        let (more, rest) ← itemsUpTo item count rest
        return (first :: more, rest)
      | ']' :: rest => return ([first], rest)
      | _ => none

/-- Adds the entries of a table in place, at most so many, up to the closing brace. Line ends and
comments may stand anywhere but within a key. -/
def entriesUpTo (item : Scan Toml) : Nat → Nodes → Scan Nodes
  | 0, _, _ => none
  | count + 1, entries, text => do
    match ← filler false text with
    | '\x7d' :: rest => return (entries, rest)
    | text =>
      let ((path, name), rest) ← key text
      let afterMark ← expect '=' (← filler false rest)
      let (value, rest) ← item (← filler false afterMark)
      let entries ← assign path name value entries
      match ← filler false rest with
      | ',' :: rest => entriesUpTo item count entries rest
      | '\x7d' :: rest => return (entries, rest)
      | _ => none

/-- A value that is neither an array nor a table in place. -/
def simple (text : List Char) : Option (Toml × List Char) :=
  if text.head? = some '"' ∨ text.head? = some '\'' then
    (longText text).map fun (inner, rest) => (.string inner, rest)
  else plain text

/-- A value whose arrays and tables in place are nested at most so deep. -/
def valueUpTo : Nat → Scan Toml
  | 0, text => simple text
  | depth + 1, text =>
    match text with
    | '[' :: rest =>
      (itemsUpTo (valueUpTo depth) text.length rest).map fun (items, rest) => (.array items, rest)
    | '\x7b' :: rest =>
      (entriesUpTo (valueUpTo depth) text.length [] rest).map fun (entries, rest) =>
        (.table (closeEntries entries), rest)
    | _ => simple text

/-- The greatest depth of nested arrays and tables in place. -/
def maxNesting : Nat := 80

def value : Scan Toml :=
  valueUpTo maxNesting

/-! ### Statements -/

inductive Statement
  | assign (path : List String) (name : String) (value : Toml)
  | openTable (path : List String) (name : String)
  | openSeries (path : List String) (name : String)
  deriving Repr

def statement (text : List Char) : Option (Statement × List Char) :=
  match text with
  | '[' :: '[' :: rest => do
    let ((path, name), rest) ← key rest
    return (.openSeries path name, ← expect ']' (← expect ']' rest))
  | '[' :: rest => do
    let ((path, name), rest) ← key rest
    return (.openTable path name, ← expect ']' rest)
  | _ => do
    let ((path, name), rest) ← key text
    let (value, rest) ← value (skipSpaces (← expect '=' rest))
    return (.assign path name value, rest)

def statementsUpTo : Nat → List Char → Option (List Statement)
  | 0, _ => none
  | count + 1, text => do
    match ← filler false text with
    | [] => return []
    | text =>
      let (first, rest) ← statement text
      if atLineEnd rest then return first :: (← statementsUpTo count rest) else none

def statements (text : List Char) : Option (List Statement) :=
  statementsUpTo (text.length + 1) text

/-! ### The document -/

/-- A table that is filled by the values after the statement that opens it. -/
structure Section where
  opening : (Nodes → Option Nodes) → Nodes → Option Nodes
  values : List (List String × String × Toml)

def fillFrom : List (List String × String × Toml) → Nodes → Option Nodes
  | [], entries => some entries
  | (path, name, value) :: rest, entries => do fillFrom rest (← assign path name value entries)

/-- Cuts statements into the values before the first opened table, and sections. -/
def sections : List Statement → List (List String × String × Toml) × List Section
  | [] => ([], [])
  | .assign path name value :: rest =>
    let (values, later) := sections rest
    ((path, name, value) :: values, later)
  | .openTable path name :: rest =>
    let (values, later) := sections rest
    ([], { opening := openTable path name, values } :: later)
  | .openSeries path name :: rest =>
    let (values, later) := sections rest
    ([], { opening := openSeries path name, values } :: later)

def addSections : List Section → Nodes → Option Nodes
  | [], entries => some entries
  | part :: rest, entries => do addSections rest (← part.opening (fillFrom part.values) entries)

def build (statements : List Statement) : Option (List (String × Toml)) :=
  let (values, later) := sections statements
  ((fillFrom values []).bind (addSections later)).map closeEntries

/-- The mark that may stand in front of a text. -/
def byteOrderMark : Char := '\ufeff'

def ofText? (text : String) : Option Toml :=
  let text := text.toList
  let text := if text.head? = some byteOrderMark then text.drop 1 else text
  ((statements text).bind build).map Toml.table

end AttributeFilter.Toml
