import AttributeFilter.Proofs.Parameter.WellFormed
import Mathlib.Data.List.Basic
import Mathlib.Data.List.Induction

/-!
# Readings of query texts compared

What a parameter holds depends on the pairs of its own name only, in their order. So two readings
of query texts can be compared name by name, and that is done here for the two modes of one text,
and for a text alone and with another one behind it. A parameter that was sent with dots or blanks
arrives under a flat name, and different names may arrive as one; a name that arrives alone brings
its value with it.

## Main definitions

* `QueryText.arrivalName`: the name under which a parameter arrives.
* `QueryText.textsFor`: the texts that pairs write below a name.

## Main results

* `QueryText.get?_foldl_write`, `QueryText.keys_foldl_write`: the values and the names that pairs
  give.
* `QueryText.pairs_flattened`: the pairs that arrive are those sent, under their arrival names.
* `QueryText.get?_parse_flattened`: what a name holds to which a single other one arrives.
* `QueryText.parse_modes`: the two modes agree up to arrival names.
* `QueryText.get?_parse_join`: a text behind another one leaves the names alone that it does not
  mention.
-/

namespace AttributeFilter

/-! ### Lists without repetition -/

theorem eraseDups_concat {α : Type} [DecidableEq α] (elements : List α) (last : α) :
    (elements ++ [last]).eraseDups =
      if last ∈ elements then elements.eraseDups else elements.eraseDups ++ [last] := by
  rw [List.eraseDups_append, List.removeAll]
  by_cases h : last ∈ elements
  · simp [h]
  · simp [h, List.eraseDups_cons]

/-- Repetitions may be removed before a list is mapped, if they are removed after it. -/
theorem eraseDups_map_eraseDups {α β : Type} [DecidableEq α] [DecidableEq β] (f : α → β)
    (elements : List α) : (elements.eraseDups.map f).eraseDups = (elements.map f).eraseDups := by
  induction elements using List.reverseRecOn with
  | nil => rfl
  | append_singleton elements last ih =>
    rw [eraseDups_concat, List.map_append, List.map_singleton, eraseDups_concat, ← ih]
    by_cases hlast : last ∈ elements
    · rw [if_pos hlast, if_pos (List.mem_map_of_mem hlast)]
    · have hmem : f last ∈ elements.eraseDups.map f ↔ f last ∈ elements.map f := by
        simp only [List.mem_map, List.mem_eraseDups]
      rw [if_neg hlast, List.map_append, List.map_singleton, eraseDups_concat]
      simp only [hmem]

namespace QueryText

variable {mode : KeyMode} {name sent text : String} {given : List Pair}

/-- The name under which a parameter arrives: it has underscores in the place of dots and blanks. -/
def arrivalName (name : String) : String :=
  String.ofList (name.toList.map fun c => if c = '.' ∨ c = ' ' then '_' else c)

/-- That is what the base name becomes in the flat mode. -/
theorem ofList_rename_flattened (base : List Char) :
    String.ofList (KeyMode.flattened.rename base) = arrivalName (String.ofList base) := by
  rw [arrivalName, String.toList_ofList]
  rfl

def Pair.arrived (pair : Pair) : Pair :=
  { pair with base := arrivalName pair.base }

/-- The text of a pair, with the steps to it below the base name. -/
def Pair.below (pair : Pair) : Parameter.Leaf :=
  { steps := pair.segments, text := pair.text }

def textsFor (name : String) (given : List Pair) : List Parameter.Leaf :=
  (given.filter (·.base = name)).map Pair.below

/-! ### What pairs give -/

theorem textsFor_append (first second : List Pair) :
    textsFor name (first ++ second) = textsFor name first ++ textsFor name second := by
  rw [textsFor, List.filter_append, List.map_append, textsFor, textsFor]

theorem textsFor_eq_nil_iff : textsFor name given = [] ↔ name ∉ given.map Pair.base := by
  simp [textsFor, List.filter_eq_nil_iff]

/-- A name holds what the pairs of that name write, one after the other; the other pairs do not
count. -/
theorem get?_foldl_write (name : String) (given : List Pair) :
    Keyed.get? name (given.foldl write []) =
      if textsFor name given = [] then none
      else some (Parameter.writeAll (textsFor name given) .blank) := by
  induction given using List.reverseRecOn with
  | nil => rfl
  | append_singleton given last ih =>
    rw [List.foldl_append, List.foldl_cons, List.foldl_nil, textsFor_append, write]
    by_cases hlast : last.base = name
    · have hown : textsFor name [last] = [last.below] := by simp [textsFor, hlast]
      rw [hlast, Keyed.get?_update_self, ih, hown, Parameter.writeAll_append,
        if_neg (List.append_ne_nil_of_right_ne_nil _ (List.cons_ne_nil _ _))]
      by_cases hnone : textsFor name given = []
      · rw [if_pos hnone, hnone]
        rfl
      · rw [if_neg hnone]
        rfl
    · have hother : textsFor name [last] = [] := by simp [textsFor, hlast]
      rw [Keyed.get?_update_of_ne (Ne.symm hlast), ih, hother, List.append_nil]

/-- The names come in the order of their first mention. -/
theorem keys_foldl_write (given : List Pair) :
    Keyed.keys (given.foldl write []) = (given.map Pair.base).eraseDups := by
  induction given using List.reverseRecOn with
  | nil => rfl
  | append_singleton given last ih =>
    rw [List.foldl_append, List.foldl_cons, List.foldl_nil, write, Keyed.keys_update, ih,
      List.map_append, List.map_singleton, eraseDups_concat]
    simp only [List.mem_eraseDups]

theorem get?_parse (mode : KeyMode) (text name : String) :
    Keyed.get? name (parse mode text) =
      if textsFor name (pairs mode text) = [] then none
      else some (Parameter.writeAll (textsFor name (pairs mode text)) .blank) :=
  get?_foldl_write name _

theorem mem_keys_parse_iff :
    name ∈ Keyed.keys (parse mode text) ↔ name ∈ (pairs mode text).map Pair.base := by
  rw [parse, keys_foldl_write, List.mem_eraseDups]

/-- Whether a name holds a given text can be decided. -/
theorem get?_eq_scalar_iff {parameters : Parameters} :
    Keyed.get? name parameters = some (.scalar text) ↔
      (Keyed.get? name parameters).bind Parameter.text? = some text := by
  cases Keyed.get? name parameters with
  | none => simp
  | some value => cases value <;> simp [Parameter.text?]

/-! ### The two modes -/

theorem rename_preserved (base : List Char) : KeyMode.preserved.rename base = base :=
  List.map_id' base

/-- A name that has arrived does not change any more. -/
theorem arrivalName_arrivalName (name : String) :
    arrivalName (arrivalName name) = arrivalName name := by
  rw [arrivalName, arrivalName, String.toList_ofList, List.map_map]
  congr 2
  funext c
  rw [Function.comp_apply]
  by_cases hc : c = '.' ∨ c = ' '
  · simp only [if_pos hc]
    rfl
  · simp only [if_neg hc]

/-- The pairs that arrive are those sent, under their arrival names. -/
theorem pairs_flattened (text : String) :
    pairs .flattened text = (pairs .preserved text).map Pair.arrived := by
  have hpair : ∀ piece, pair? .flattened piece = (pair? .preserved piece).map Pair.arrived := by
    intro piece
    simp only [pair?]
    split
    · rfl
    split
    · rfl
    split
    · rfl
    · simp only [Option.map_some, Pair.arrived, ofList_rename_flattened, rename_preserved]
  rw [pairs, pairs, List.map_filterMap]
  exact List.filterMap_congr fun piece _ => hpair piece

theorem keys_parse_flattened (text : String) :
    Keyed.keys (parse .flattened text) =
      ((Keyed.keys (parse .preserved text)).map arrivalName).eraseDups := by
  rw [parse, parse, keys_foldl_write, keys_foldl_write, eraseDups_map_eraseDups, pairs_flattened,
    List.map_map, List.map_map]
  rfl

theorem mem_keys_parse_flattened_iff :
    name ∈ Keyed.keys (parse .flattened text) ↔
      ∃ sent ∈ Keyed.keys (parse .preserved text), arrivalName sent = name := by
  rw [keys_parse_flattened, List.mem_eraseDups, List.mem_map]

/-- The texts that arrive under a name are those sent under the only name that arrives as it. -/
theorem textsFor_map_arrived
    (h : ∀ pair ∈ given, arrivalName pair.base = name ↔ pair.base = sent) :
    textsFor name (given.map Pair.arrived) = textsFor sent given := by
  have hkept : given.filter (fun pair => decide (arrivalName pair.base = name)) =
      given.filter (fun pair => decide (pair.base = sent)) :=
    List.filter_congr fun pair hpair => decide_eq_decide.2 (h pair hpair)
  rw [textsFor, textsFor, List.filter_map, List.map_map, ← hkept]
  rfl

/-- A name holds what was sent under the only name that arrives as it. -/
theorem get?_parse_flattened
    (h : ∀ other ∈ Keyed.keys (parse .preserved text), arrivalName other = name ↔ other = sent) :
    Keyed.get? name (parse .flattened text) = Keyed.get? sent (parse .preserved text) := by
  have hpairs : ∀ pair ∈ pairs .preserved text, arrivalName pair.base = name ↔ pair.base = sent :=
    fun pair hpair => h pair.base (mem_keys_parse_iff.2 (List.mem_map_of_mem hpair))
  rw [get?_parse, get?_parse, pairs_flattened, textsFor_map_arrived hpairs]

/-- The two modes agree on a name that stays as it is on its way, if all that arrives under it was
sent under it. -/
theorem get?_parse_of_sent_as_named (hname : arrivalName name = name)
    (h : ∀ other ∈ Keyed.keys (parse .preserved text), arrivalName other = name → other = name) :
    Keyed.get? name (parse .flattened text) = Keyed.get? name (parse .preserved text) :=
  get?_parse_flattened fun other hmem => ⟨h other hmem, fun heq => heq ▸ hname⟩

/-- **The two modes agree up to arrival names.** The names that arrive are those sent, in their
order, each as its arrival name where that comes for the first time. A name that only one of those
sent arrives as holds the same value in both modes. -/
theorem parse_modes (text : String) :
    Keyed.keys (parse .flattened text) =
        ((Keyed.keys (parse .preserved text)).map arrivalName).eraseDups ∧
      ∀ name sent, (Keyed.keys (parse .preserved text)).filter (arrivalName · = name) = [sent] →
        ∃ value, Keyed.get? name (parse .flattened text) = some value ∧
          Keyed.get? sent (parse .preserved text) = some value := by
  refine ⟨keys_parse_flattened text, fun name sent honly => ?_⟩
  have hiff : ∀ other ∈ Keyed.keys (parse .preserved text),
      arrivalName other = name ↔ other = sent := by
    intro other hother
    have hkept : other ∈ [sent] ↔ arrivalName other = name := by
      rw [← honly, List.mem_filter, decide_eq_true_iff, and_iff_right hother]
    rw [← hkept, List.mem_singleton]
  have hsent : sent ∈ Keyed.keys (parse .preserved text) := by
    have hmem : sent ∈ (Keyed.keys (parse .preserved text)).filter (arrivalName · = name) := by
      rw [honly]
      exact List.mem_singleton_self sent
    exact (List.mem_filter.1 hmem).1
  obtain ⟨value, hvalue⟩ := Option.isSome_iff_exists.1 ((Keyed.get?_isSome_iff sent _).2 hsent)
  exact ⟨value, (get?_parse_flattened hiff).trans hvalue, hvalue⟩

example : parse .flattened "a.b=1&c.d=2&a_b[]=3" =
    [("a_b", .list [.scalar "3"]), ("c_d", .scalar "2")] := by
  cbv

/-! ### One text behind another -/

theorem pieces_join (first second : String) :
    pieces (first ++ "&" ++ second) = pieces first ++ second.toList.splitOn '&' := by
  have htrim : (first.toList ++ '&' :: second.toList).dropWhile (· = '?') =
      first.toList.dropWhile (· = '?') ++ '&' :: second.toList := by
    rw [List.dropWhile_append]
    split
    · next hall =>
      rw [List.isEmpty_iff.1 hall]
      rfl
    · rfl
  have hjoin : (first ++ "&" ++ second).toList = first.toList ++ '&' :: second.toList := by
    simp
  rw [pieces, pieces, hjoin, Text.trimStart, htrim, List.splitOn_append_cons_self]
  rfl

/-- The pairs of two texts are those of the first one and those that the second one gives behind it,
where a question mark in front is part of a name. -/
theorem pairs_join (mode : KeyMode) (first second : String) :
    pairs mode (first ++ "&" ++ second) = pairs mode first ++ pairs mode ("&" ++ second) := by
  have hbehind : pieces ("&" ++ second) = [] :: second.toList.splitOn '&' := by
    have hempty := pieces_join "" second
    rwa [String.empty_append] at hempty
  have hnothing : pair? mode [] = none := rfl
  rw [pairs, pairs, pairs, pieces_join, hbehind, List.filterMap_append,
    List.filterMap_cons_none hnothing]

/-- A text behind another one leaves the names alone that it does not mention. -/
theorem get?_parse_join {first second : String}
    (h : name ∉ Keyed.keys (parse mode ("&" ++ second))) :
    Keyed.get? name (parse mode (first ++ "&" ++ second)) =
      Keyed.get? name (parse mode first) := by
  rw [mem_keys_parse_iff, ← textsFor_eq_nil_iff] at h
  rw [get?_parse, get?_parse, pairs_join, textsFor_append, h, List.append_nil]

end QueryText

end AttributeFilter
