import AttributeFilter.Proofs.Filter.Description
import AttributeFilter.Sample.Wardrobe

/-!
# The shape of a description

A description is written entry by entry: a reference is first told as a text and then again with its
type, in the same place, and a list of it that was told first is kept or told again. What stands
there in the end is said here without the writing. Properties come in the order in which the filter
has them; unknown ones and those of other types leave no trace, and any other fault of the schema
ends the description. That takes names without brackets, which cannot be mistaken for the list of
another property.

## Main definitions

* `Registry.FaultsFirst`: the first of some properties that ends a description.
* `Filter.toldFor`, `Filter.toldOf`: what stands in a description for a property.
* `Filter.tellingNames`: the names under which a property may be told.

## Main results

* `Filter.extend_entriesOf`: the entries of a property under new names.
* `Filter.describeFrom_eq_error_iff`, `Filter.describeFrom_eq_ok_iff`: the description of some
  properties.
* `Filter.describe_shape`: when a filter is described, and how.
-/

namespace AttributeFilter

namespace Registry

/-- The error is that of the first faulty property. -/
def FaultsFirst (registry : Registry) (family : Family) (properties : List (String × Option String))
    (error : Error) : Prop :=
  ∃ before entry after, properties = before ++ entry :: after ∧
    registry.Faulty family entry.1 error ∧
    ∀ earlier ∈ before, ∀ other, ¬ registry.Faulty family earlier.1 other

variable {registry : Registry} {family : Family} {entry : String × Option String}
  {properties : List (String × Option String)} {error : Error}

theorem not_faultsFirst_nil : ¬ registry.FaultsFirst family [] error := by
  rintro ⟨before, entry, after, h, -⟩
  exact List.append_ne_nil_of_right_ne_nil before (List.cons_ne_nil entry after) h.symm

/-- The first faulty property is the one in front, or else the first of those behind it. -/
theorem faultsFirst_cons_iff :
    registry.FaultsFirst family (entry :: properties) error ↔
      registry.Faulty family entry.1 error ∨
        (∀ other, ¬ registry.Faulty family entry.1 other) ∧
          registry.FaultsFirst family properties error := by
  constructor
  · rintro ⟨before, faulty, after, hsplit, hfaulty, hbefore⟩
    cases before with
    | nil =>
      cases hsplit
      exact .inl hfaulty
    | cons first before =>
      cases hsplit
      obtain ⟨hfirst, hbefore⟩ := List.forall_mem_cons.1 hbefore
      exact .inr ⟨hfirst, before, faulty, after, rfl, hfaulty, hbefore⟩
  · rintro (hfaulty | ⟨hfirst, before, faulty, after, rfl, hfaulty, hbefore⟩)
    · exact ⟨[], entry, properties, rfl, hfaulty, fun _ h => absurd h List.not_mem_nil⟩
    · exact ⟨entry :: before, faulty, after, rfl, hfaulty,
        List.forall_mem_cons.2 ⟨hfirst, hbefore⟩⟩

end Registry

namespace Filter

/-- What stands in a description for a property with an attribute. An order filter tells of the
order by it, with the default direction. Any other filter tells of the property with its type and
the strategy that it is searched by, the exact one if it is left open, and then of its list: with
its type if it is matched exactly, and otherwise as texts if it is a reference. -/
def toldFor (filter : Filter) (field : Attribute) (property : String) (strategy : Option String) :
    Description :=
  let exact := SearchStrategy.exact.name
  let effective := strategy.getD exact
  match filter.kind with
  | .order => [(orderName property, { property, semantic := field.semantic, strategy })]
  | _ =>
    (property, { property, semantic := field.semantic, strategy := some effective }) ::
      if effective = exact then
        [(listName property, { property, semantic := field.semantic, strategy := some exact })]
      else if field.isReference then
        [(listName property, { property, semantic := .string, strategy := some exact })]
      else []

/-- What stands in a description for a property: nothing if it leads to no attribute, or to one of a
type that the filter does not support. -/
def toldOf (filter : Filter) (registry : Registry) (family : Family)
    (entry : String × Option String) : Description :=
  match registry.path family entry.1 with
  | .ok path =>
    if path.target.semantic ∈ filter.types then filter.toldFor path.target entry.1 entry.2 else []
  | .error _ => []

/-- The names under which a property may be told. -/
def tellingNames (filter : Filter) (property : String) : List String :=
  match filter.kind with
  | .order => [orderName property]
  | _ => [property, listName property]

variable {filter : Filter} {registry : Registry} {family : Family} {resource property other : String}
  {strategy : Option String} {description result entries : Description} {error : Error}

/-! ### The entries of one property -/

theorem keys_entriesFor_subset (field : Attribute) :
    Keyed.keys (filter.entriesFor field property strategy) ⊆ filter.tellingNames property := by
  cases hkind : filter.kind with
  | order => simp [entriesFor, tellingNames, hkind, orderEntries]
  | boolean | numeric | search =>
    simp only [entriesFor, tellingNames, hkind, valueEntries]
    split <;> split <;> simp

/-- Read as entries, what is written for a property is what stands there in the end: the last entry
under a name counts, in the first place that it had. -/
theorem ofList_entriesFor (hplain : '[' ∉ property.toList) (field : Attribute) :
    Keyed.ofList (filter.entriesFor field property strategy) =
      filter.toldFor field property strategy := by
  have hlist : property ≠ listName property := fun h => hplain (h ▸ open_mem_listName property)
  cases hkind : filter.kind with
  | order => simp [entriesFor, toldFor, hkind, orderEntries, Keyed.ofList, Keyed.extend,
      Keyed.insert, Keyed.update]
  | boolean | numeric | search =>
    simp only [entriesFor, toldFor, hkind, valueEntries]
    split <;> split <;> simp [*, Keyed.ofList, Keyed.extend, Keyed.insert, Keyed.update]

theorem exists_entriesOf_eq_ok_iff (filter : Filter) (strategy : Option String) :
    (∃ entries, filter.entriesOf registry family property strategy = .ok entries) ↔
      ∀ error, ¬ registry.Faulty family property error := by
  have herror : ∀ error, registry.Faulty family property error ↔
      filter.entriesOf registry family property strategy = .error error :=
    fun _ => entriesOf_eq_error_iff.symm
  simp only [herror]
  cases filter.entriesOf registry family property strategy <;> simp

theorem keys_entriesOf_subset
    (h : filter.entriesOf registry family property strategy = .ok entries) :
    Keyed.keys entries ⊆ filter.tellingNames property := by
  rcases entriesOf_eq_ok h with ⟨path, -, -, rfl⟩ | ⟨rfl, -⟩
  · exact keys_entriesFor_subset path.target
  · exact List.nil_subset _

/-- Read as entries, what is written for a property is what stands there in the end. -/
theorem ofList_entriesOf (hplain : '[' ∉ property.toList)
    (h : filter.entriesOf registry family property strategy = .ok entries) :
    Keyed.ofList entries = filter.toldOf registry family (property, strategy) := by
  rw [toldOf]
  rcases entriesOf_eq_ok h with ⟨path, hpath, hsupported, rfl⟩ | ⟨rfl, hnone⟩
  · simp only [hpath, hsupported, if_true]
    exact ofList_entriesFor hplain path.target
  · split
    · next path hpath =>
      rw [if_neg (hnone path hpath)]
      rfl
    · rfl

/-- The entries of a property are appended to a description that has none of its names. -/
theorem extend_entriesOf (hplain : '[' ∉ property.toList)
    (hnew : ∀ name ∈ filter.tellingNames property, name ∉ Keyed.keys description)
    (h : filter.entriesOf registry family property strategy = .ok entries) :
    Keyed.extend description entries =
      description ++ filter.toldOf registry family (property, strategy) := by
  rw [← ofList_entriesOf hplain h]
  exact Keyed.extend_of_forall_notMem fun name hname => hnew name (keys_entriesOf_subset h hname)

theorem keys_toldOf_subset (hplain : '[' ∉ property.toList)
    (h : filter.entriesOf registry family property strategy = .ok entries) :
    Keyed.keys (filter.toldOf registry family (property, strategy)) ⊆
      filter.tellingNames property := by
  intro name hname
  rw [← ofList_entriesOf hplain h] at hname
  have hentries := (Keyed.mem_keys_extend_iff.1 hname).resolve_left List.not_mem_nil
  exact keys_entriesOf_subset h hentries

/-- Properties without brackets in their names are told under different names. -/
theorem notMem_tellingNames (hplain : '[' ∉ property.toList) (hother : '[' ∉ other.toList)
    (hne : property ≠ other) {name : String} (hname : name ∈ filter.tellingNames property) :
    name ∉ filter.tellingNames other := by
  have hown : property ≠ listName other := fun h => hplain (h ▸ open_mem_listName other)
  have hlist : listName property ≠ other := fun h => hother (h ▸ open_mem_listName property)
  have hlists : listName property ≠ listName other := fun h => hne (listName_injective h)
  have horders : orderName property ≠ orderName other := fun h => hne (orderName_injective h)
  cases hkind : filter.kind <;> simp only [tellingNames, hkind, List.mem_cons, List.not_mem_nil,
    or_false] at hname ⊢ <;> grind

/-! ### The entries of many properties -/

theorem describeFrom_eq_error_iff {properties : List (String × Option String)} :
    filter.describeFrom registry family description properties = .error error ↔
      registry.FaultsFirst family properties error := by
  induction properties generalizing description with
  | nil =>
    constructor
    · intro h
      cases h
    · intro h
      exact absurd h Registry.not_faultsFirst_nil
  | cons entry rest ih =>
    obtain ⟨property, strategy⟩ := entry
    rw [Registry.faultsFirst_cons_iff, describeFrom, Outcome.bind_eq_error_iff,
      entriesOf_eq_error_iff, ← exists_entriesOf_eq_ok_iff filter strategy]
    simp only [ih, exists_and_right]

/-- A description of properties without brackets in their names succeeds if none of them is faulty.
It then has what is told of them, one after the other. -/
theorem describeFrom_eq_ok_iff {properties : List (String × Option String)}
    (hplain : ∀ name ∈ Keyed.keys properties, '[' ∉ name.toList)
    (distinct : (Keyed.keys properties).Nodup)
    (hnew : ∀ property ∈ Keyed.keys properties, ∀ name ∈ filter.tellingNames property,
      name ∉ Keyed.keys description) :
    filter.describeFrom registry family description properties = .ok result ↔
      (∀ entry ∈ properties, ∀ error, ¬ registry.Faulty family entry.1 error) ∧
        result = description ++ properties.flatMap (filter.toldOf registry family) := by
  induction properties generalizing description with
  | nil => simp [describeFrom, eq_comm]
  | cons entry rest ih =>
    obtain ⟨property, strategy⟩ := entry
    obtain ⟨hproperty, hrest⟩ := List.forall_mem_cons.1 hplain
    obtain ⟨hfirst, hlater⟩ := List.forall_mem_cons.1 hnew
    rw [Keyed.keys_cons, List.nodup_cons] at distinct
    have hstep : ∀ entries, filter.entriesOf registry family property strategy = .ok entries →
        (filter.describeFrom registry family (Keyed.extend description entries) rest = .ok result ↔
          (∀ entry ∈ rest, ∀ error, ¬ registry.Faulty family entry.1 error) ∧
            result = description ++
              ((property, strategy) :: rest).flatMap (filter.toldOf registry family)) := by
      intro entries hentries
      rw [extend_entriesOf hproperty hfirst hentries, List.flatMap_cons, ← List.append_assoc]
      -- what the first property is told under leaves the names of the others new
      refine ih hrest distinct.2 fun other hother name hname => ?_
      rw [Keyed.keys_append, List.mem_append, not_or]
      have hne : other ≠ property := fun h => distinct.1 (h ▸ hother)
      exact ⟨hlater other hother name hname, fun htold =>
        notMem_tellingNames (hrest other hother) hproperty hne hname
          (keys_toldOf_subset hproperty hentries htold)⟩
    rw [describeFrom_cons_eq_ok, List.forall_mem_cons,
      ← exists_entriesOf_eq_ok_iff filter strategy, and_assoc]
    constructor
    · rintro ⟨entries, hentries, h⟩
      exact ⟨⟨entries, hentries⟩, (hstep entries hentries).1 h⟩
    · rintro ⟨⟨entries, hentries⟩, h⟩
      exact ⟨entries, hentries, (hstep entries hentries).2 h⟩

/-! ### Descriptions -/

/-- **The shape of a description.** The properties that a filter has for a family are those that it
lists, or all attributes of the family. The description fails if there is no family for the resource
or if one of the properties is faulty, with the error of the first one. Otherwise it has what is told
of the properties, one after the other, if there are no brackets in their names. -/
theorem describe_shape (hplain : ∀ family, registry.resolve filter.family resource = .ok family →
      ∀ name ∈ Keyed.keys (filter.describedProperties family), '[' ∉ name.toList) :
    (∀ error, filter.describe registry resource = .error error ↔
      registry.resolve filter.family resource = .error error ∨
        ∃ family, registry.resolve filter.family resource = .ok family ∧
          registry.FaultsFirst family (filter.describedProperties family) error) ∧
    ∀ description, filter.describe registry resource = .ok description ↔
      ∃ family, registry.resolve filter.family resource = .ok family ∧
        (∀ entry ∈ filter.describedProperties family, ∀ error,
          ¬ registry.Faulty family entry.1 error) ∧
        description =
          (filter.describedProperties family).flatMap (filter.toldOf registry family) := by
  refine ⟨fun error => ?_, fun description => ?_⟩
  · rw [describe, Outcome.bind_eq_error_iff]
    simp only [describeFrom_eq_error_iff]
  · rw [describe, Outcome.bind_eq_ok_iff]
    refine exists_congr fun family => and_congr_right fun hfamily => ?_
    rw [describeFrom_eq_ok_iff (hplain family hfamily)
      (nodup_keys_describedProperties filter family) fun _ _ _ _ => List.not_mem_nil,
      List.nil_append]

/-- A search by sleeves and makers, and by a colour that shirts do not have. -/
def outfits : Filter where
  kind := .search
  types := [.string, .entity]
  properties := .ofList
    [("sleeve_style", some "partial"), ("maker", some "partial"), ("colour", none),
      ("maker.name", none)]
  family := none
  strategies_exist := by decide

/-- What the search tells of itself: a list of makers is told, although they are searched by a part
of them, and the colour is passed over. -/
def outfitsTold : Description :=
  [("sleeve_style",
      { property := "sleeve_style", semantic := .string, strategy := some "partial" }),
    ("maker", { property := "maker", semantic := .entity, strategy := some "partial" }),
    ("maker[]", { property := "maker", semantic := .string, strategy := some "exact" }),
    ("maker.name", { property := "maker.name", semantic := .string, strategy := some "exact" }),
    ("maker.name[]", { property := "maker.name", semantic := .string, strategy := some "exact" })]

theorem describe_outfits_shape :
    (∀ family, Wardrobe.families.resolve outfits.family Wardrobe.shirtClass = .ok family →
      ∀ name ∈ Keyed.keys (outfits.describedProperties family), '[' ∉ name.toList) ∧
    (∃ family, Wardrobe.families.resolve outfits.family Wardrobe.shirtClass = .ok family ∧
      (∀ entry ∈ outfits.describedProperties family, ∀ error,
        ¬ Wardrobe.families.Faulty family entry.1 error) ∧
      outfitsTold =
        (outfits.describedProperties family).flatMap (outfits.toldOf Wardrobe.families family)) ∧
    outfits.describe Wardrobe.families Wardrobe.shirtClass = .ok outfitsTold := by
  have hplain : ∀ family,
      Wardrobe.families.resolve outfits.family Wardrobe.shirtClass = .ok family →
        ∀ name ∈ Keyed.keys (outfits.describedProperties family), '[' ∉ name.toList := by
    intro family _
    change ∀ name ∈ Keyed.keys outfits.properties.entries, _
    decide
  have hdescribe : outfits.describe Wardrobe.families Wardrobe.shirtClass = .ok outfitsTold :=
    Outcome.toOption_eq_some_iff.1 (by decide +kernel)
  exact ⟨hplain, ((describe_shape hplain).2 outfitsTold).1 hdescribe, hdescribe⟩

end Filter

end AttributeFilter
