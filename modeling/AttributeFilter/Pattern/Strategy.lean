import AttributeFilter.Error
import AttributeFilter.Pattern.Like
import AttributeFilter.Text.Blank

/-!
# Search strategies

A search filter turns a value into a pattern by putting wildcards around it. Wildcards that the
value already has at its ends are dropped first.

## Main definitions

* `SearchStrategy`: where the wildcards go.
* `SearchStrategy.ofName`: the strategy of a configured name; no name means exact.
* `SearchStrategy.bare`: a value without wildcards at its ends.
* `SearchStrategy.pattern`: the pattern for a value.
-/

namespace AttributeFilter

/-- Where a search puts wildcards. The start of a word is approximated by any position. -/
inductive SearchStrategy
  | exact
  | within
  | atStart
  | atEnd
  | wordStart
  deriving DecidableEq, Repr

namespace SearchStrategy

def name : SearchStrategy → String
  | exact => "exact"
  | within => "partial"
  | atStart => "start"
  | atEnd => "end"
  | wordStart => "word_start"

/-- The strategy of a configured name; no name means exact. -/
def ofName : Option String → Except Error SearchStrategy
  | none => .ok exact
  | some name =>
    if name = "exact" then .ok exact
    else if name = "partial" then .ok within
    else if name = "start" then .ok atStart
    else if name = "end" then .ok atEnd
    else if name = "word_start" then .ok wordStart
    else .error (.invalidStrategy name)

/-- A value without wildcards at its ends. -/
def bare (value : String) : String :=
  String.ofList (Text.trim (· = Like.anyRun) value.toList)

def wildcard : String := "%"

def pattern (strategy : SearchStrategy) (value : String) : String :=
  match strategy with
  | exact => bare value
  | within => wildcard ++ bare value ++ wildcard
  | wordStart => wildcard ++ bare value ++ wildcard
  | atStart => bare value ++ wildcard
  | atEnd => wildcard ++ bare value

end SearchStrategy

end AttributeFilter
