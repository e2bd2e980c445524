import AttributeFilter.Parameter.Basic
import AttributeFilter.Text.Cut

/-!
# Names of parameters

The name of a parameter is a base name followed by groups in brackets, each a step into the
parameter: an empty group appends to a list, any other group names an entry.

## Main definitions

* `Key.maxNesting`: the greatest number of groups.
* `Key.Groups`, `Key.readGroups`: what the groups at the front of a text amount to.
* `Key.split?`: base name and steps of a name; `none` for a name with too many groups.
-/

namespace AttributeFilter.Key

open Parameter (Segment)

def maxNesting : Nat := 64

/-- What the bracket groups at the front of a text amount to: the steps they name, a bracket that
is never closed, or one group too many. -/
inductive Groups
  | steps (segments : List Segment)
  | unclosed
  | tooDeep
  deriving Repr

/-- The step that the text between brackets names. -/
def segmentOf (inner : List Char) : Segment :=
  if inner.isEmpty then .append else .key (String.ofList inner)

def Groups.cons (segment : Segment) : Groups → Groups
  | .steps segments => .steps (segment :: segments)
  | other => other

/-- Reads the groups at the front of a text, at most so many; whatever follows the last group is
passed over. -/
def readGroups : Nat → List Char → Groups
  | allowed, '[' :: inner =>
    match Text.cut? ']' inner with
    | none => .unclosed
    | some (name, after) =>
      match allowed with
      | 0 => .tooDeep
      | allowed + 1 => (readGroups allowed after).cons (segmentOf name)
  | _, _ => .steps []

/-- Base name and steps of a name. A name with an unclosed bracket is all base name; one with more
than `maxNesting` groups is no name. -/
def split? (name : List Char) : Option (List Char × List Segment) :=
  let base := name.takeWhile (· ≠ '[')
  match readGroups maxNesting (name.dropWhile (· ≠ '[')) with
  | .steps segments => some (base, segments)
  | .unclosed => some (name, [])
  | .tooDeep => none

end AttributeFilter.Key
