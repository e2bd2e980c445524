import AttributeFilter.Proofs.Parameter.Readings
import Mathlib.Data.List.TakeWhile

/-!
# Parameters that are read on their own

The pieces of a query text are written one after the other, and each of them acts on the parameter
of its own name only. So a parameter is known from the pieces of its name: however often it turns
from a text into a list or into named entries, the pieces between them make no difference. Which
parameters there are, and in which order, is known from the names of the pieces alone.

## Main definitions

* `QueryText.baseName?`: the name of the parameter that a piece writes to, if it counts.
* `QueryText.piecesFor`: the pieces of a text that write to a parameter.

## Main results

* `QueryText.map_base_pair?`: the name of a piece is that of its pair.
* `QueryText.textsFor_pairs`: the texts written below a name come from the pieces of this name.
* `QueryText.parse_independent`: texts with the same pieces of a name give it the same value, and the
  names come in the order of their first pieces.
-/

namespace AttributeFilter

namespace Text

/-- Before the first separator comes what the text begins with; all of it, if it has none. -/
theorem fst_getD_cut? (separator : Char) (text : List Char) :
    ((cut? separator text).getD (text, [])).1 = text.takeWhile (· ≠ separator) := by
  have hplain {before : List Char} (h : separator ∉ before) :
      ∀ c ∈ before, decide (c ≠ separator) = true :=
    fun c hc => decide_eq_true fun heq => h (heq ▸ hc)
  cases hcut : cut? separator text with
  | none =>
    have hnone := hplain ((cut?_eq_none_iff separator text).1 hcut)
    exact (List.takeWhile_eq_self_iff.2 hnone).symm
  | some parts =>
    obtain ⟨before, after⟩ := parts
    obtain ⟨rfl, hbefore⟩ := cut?_eq_some hcut
    rw [List.takeWhile_append_of_pos (hplain hbefore),
      List.takeWhile_cons_of_neg (by simp), List.append_nil]
    rfl

end Text

namespace QueryText

/-- The name of the parameter that a piece of query text writes to: the base of what it has before
an equals sign, decoded and as the mode has it. A piece that is empty, without base or with too many
groups writes to none. -/
def baseName? (mode : KeyMode) (piece : List Char) : Option String :=
  if piece = [] then none
  else
    (Key.split? (Percent.decode (piece.takeWhile (· ≠ '='))).toList).bind fun (base, _) =>
      if base = [] then none else some (String.ofList (mode.rename base))

/-- The pieces of a query text that write to a parameter, in order. -/
def piecesFor (mode : KeyMode) (name text : String) : List (List Char) :=
  (pieces text).filter fun piece => baseName? mode piece = some name

/-- The name of a piece is that of its pair, and a piece without name counts for nothing. -/
theorem map_base_pair? (mode : KeyMode) (piece : List Char) :
    (pair? mode piece).map Pair.base = baseName? mode piece := by
  rw [pair?, baseName?, ← Text.fst_getD_cut?]
  simp only [List.isEmpty_iff]
  split
  · rfl
  · cases Key.split? (Percent.decode ((Text.cut? '=' piece).getD (piece, [])).1).toList with
    | none => rfl
    | some parts =>
      obtain ⟨base, segments⟩ := parts
      simp only [Option.bind_some]
      split <;> rfl

theorem map_base_pairs (mode : KeyMode) (text : String) :
    (pairs mode text).map Pair.base = (pieces text).filterMap (baseName? mode) := by
  rw [pairs, List.map_filterMap]
  exact List.filterMap_congr fun piece _ => map_base_pair? mode piece

/-- The texts that are written below a name come from the pieces of this name. -/
theorem textsFor_pairs (mode : KeyMode) (name text : String) :
    textsFor name (pairs mode text) =
      ((piecesFor mode name text).filterMap (pair? mode)).map Pair.below := by
  rw [textsFor, pairs, piecesFor, List.filter_filterMap, List.filterMap_filter]
  refine congrArg (List.map Pair.below) (List.filterMap_congr fun piece _ => ?_)
  rw [← map_base_pair?]
  cases pair? mode piece with
  | none => rfl
  | some pair => by_cases hname : pair.base = name <;> simp [hname]

/-- The names come in the order of their first pieces. -/
theorem keys_parse (mode : KeyMode) (text : String) :
    Keyed.keys (parse mode text) = ((pieces text).filterMap (baseName? mode)).eraseDups := by
  rw [parse, keys_foldl_write, map_base_pairs]

/-- **Parameters are independent.** Two texts with the same pieces of a name, in the same order, give
this name the same value, or neither gives it one, whatever their other pieces are and wherever they
stand. The names that a text gives are those of its pieces in the order of their first appearance. -/
theorem parse_independent (mode : KeyMode) :
    (∀ first second name, piecesFor mode name first = piecesFor mode name second →
      Keyed.get? name (parse mode first) = Keyed.get? name (parse mode second)) ∧
    ∀ text, Keyed.keys (parse mode text) =
      ((pieces text).filterMap (baseName? mode)).eraseDups := by
  refine ⟨fun first second name hsame => ?_, keys_parse mode⟩
  rw [get?_parse, get?_parse, textsFor_pairs, textsFor_pairs, hsame]

example : Keyed.get? "a" (parse .flattened "?a[]=1&b=2&a[x]=3&&a.b=4&a[x][]=5") =
    Keyed.get? "a" (parse .flattened "=0&a[]=1&a[x]=3&c[a]=2&a[x][]=5") := by
  cbv

end QueryText

end AttributeFilter
