import AttributeFilter.Parameter.Key
import AttributeFilter.Parameter.Percent
import AttributeFilter.Text.Blank

/-!
# Reading query texts

A query text is a list of pairs of name and value with ampersands between them. The pairs are
written one after the other into the parameters of the request.

## Main definitions

* `KeyMode`: whether dots and blanks in base names survive.
* `QueryText.Pair`, `QueryText.pair?`: a pair, decoded and taken apart; `none` if it counts for
  nothing.
* `QueryText.pairs`: the pairs of a text that count.
* `QueryText.write`, `QueryText.parse`: writing a pair, and all pairs of a text.

## Main results

* `QueryText.nodup_keys_parse`: no name occurs twice among the parameters.
-/

namespace AttributeFilter

/-- How base names are read: with dots and blanks replaced by underscores, or as sent. -/
inductive KeyMode
  | flattened
  | preserved
  deriving DecidableEq, Repr

namespace KeyMode

/-- The character a mode makes of one in a base name. -/
def renameChar : KeyMode → Char → Char
  | .flattened, c => if c = '.' ∨ c = ' ' then '_' else c
  | .preserved, c => c

def rename (mode : KeyMode) (base : List Char) : List Char :=
  base.map mode.renameChar

end KeyMode

namespace QueryText

open Parameter (Segment)

/-- A pair of a query text: where it writes, and what. -/
structure Pair where
  base : String
  segments : List Segment
  text : String
  deriving DecidableEq, Repr

/-- Takes a piece of query text apart. An empty piece, a name without base and a name with too many
groups count for nothing; a piece without equals sign has the empty text as its value. -/
def pair? (mode : KeyMode) (piece : List Char) : Option Pair :=
  if piece.isEmpty then none
  else
    let (name, value) := (Text.cut? '=' piece).getD (piece, [])
    match Key.split? (Percent.decode name).toList with
    | none => none
    | some (base, segments) =>
      if base.isEmpty then none
      else
        some { base := String.ofList (mode.rename base), segments, text := Percent.decode value }

/-- The pieces of a query text, without question marks in front. -/
def pieces (text : String) : List (List Char) :=
  (Text.trimStart (· = '?') text.toList).splitOn '&'

def pairs (mode : KeyMode) (text : String) : List Pair :=
  (pieces text).filterMap (pair? mode)

def write (parameters : Parameters) (pair : Pair) : Parameters :=
  Keyed.update pair.base .blank (Parameter.assign pair.text pair.segments) parameters

def parse (mode : KeyMode) (text : String) : Parameters :=
  (pairs mode text).foldl write []

theorem nodup_keys_foldl_write :
    (pairs : List Pair) → {parameters : Parameters} → (Keyed.keys parameters).Nodup →
      (Keyed.keys (pairs.foldl write parameters)).Nodup
  | [], _, h => h
  | pair :: rest, _, h =>
    nodup_keys_foldl_write rest (Keyed.nodup_keys_update pair.base Parameter.blank _ h)

/-- No name occurs twice among the parameters of a query text. -/
theorem nodup_keys_parse (mode : KeyMode) (text : String) :
    (Keyed.keys (parse mode text)).Nodup :=
  nodup_keys_foldl_write _ List.nodup_nil

end QueryText

end AttributeFilter
