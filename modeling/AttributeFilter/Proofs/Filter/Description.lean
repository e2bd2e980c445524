import AttributeFilter.Filter.Description
import AttributeFilter.Proofs.Filter.Meaning
import AttributeFilter.Proofs.Keyed
import AttributeFilter.Proofs.Schema.Lookup

/-!
# What a description tells

Each property of a filter is described under a name of its own, so the entry there is the one that
the property gave. It is there if the property leads to an attribute of a type that the filter
supports; a type that it supports but does not handle is told all the same.

## Main definitions

* `Filter.toldName`: the name under which a filter describes a property.
* `Description.Advertises`: a name is told with a type that can be asked for.
* `Registry.Faulty`: a property that leads to no attribute, for another reason than that it is
  unknown.

## Main results

* `Filter.entriesOf_eq_ok`: what the entries of a property are.
* `Filter.get?_describeFrom_of_notMem`: other properties do not touch the entry of a property.
* `Filter.mem_keys_describeFrom_iff`: the names that are told.
* `Filter.told_describeFrom_iff`: the type that is told of a property.
* `Filter.listName_mem_describe_iff`: which lists are told.
* `Filter.advertises_iff`: which properties are told with a type that can be asked for.
* `Filter.entriesOf_eq_error_iff`: which properties cannot be described.
* `Filter.describe_eq_error`: no error of a description is the client's.
-/

namespace AttributeFilter

/-- The description tells of a type other than the mixed one under the name. -/
def Description.Advertises (description : Description) (name : String) : Prop :=
  ∃ descriptor, Keyed.get? name description = some descriptor ∧ descriptor.semantic ≠ .mixed

/-- There is no way from the family to an attribute of the property, for another reason than that
the property is unknown. -/
def Registry.Faulty (registry : Registry) (family : Family) (property : String) (error : Error) :
    Prop :=
  registry.path family property = .error error ∧ ∀ code name, error ≠ .unknownAttribute code name

namespace Filter

variable {filter : Filter} {registry : Registry} {resource property other : String}
  {family : Family} {description result : Description} {strategy : Option String}

/-- The name under which a filter describes a property. -/
def toldName (filter : Filter) (property : String) : String :=
  match filter.kind with
  | .order => orderName property
  | _ => property

/-! ### Names -/

theorem toldName_of_order (hkind : filter.kind = .order) (property : String) :
    filter.toldName property = orderName property := by
  rw [toldName, hkind]

theorem toldName_of_ne_order (hkind : filter.kind ≠ .order) (property : String) :
    filter.toldName property = property := by
  rw [toldName]
  split
  · next h => exact absurd h hkind
  · rfl

theorem open_mem_listName (property : String) : '[' ∈ (listName property).toList := by
  simp [listName]

theorem listName_injective (h : listName property = listName other) : property = other := by
  have hlist := congrArg String.toList h
  simp only [listName, String.toList_append, List.append_cancel_right_eq] at hlist
  exact String.toList_inj.1 hlist

theorem orderName_injective (h : orderName property = orderName other) : property = other := by
  have hlist := congrArg String.toList h
  simp only [orderName, String.toList_append, List.append_assoc, List.append_cancel_left_eq,
    List.append_cancel_right_eq] at hlist
  exact String.toList_inj.1 hlist

/-! ### The entries of one property -/

theorem entriesFor_of_ne_order (hkind : filter.kind ≠ .order) (field : Attribute) :
    filter.entriesFor field property strategy = valueEntries field property strategy := by
  rw [entriesFor]
  split
  · next h => exact absurd h hkind
  · rfl

/-- The list of a property is told if its attribute is a reference, or if it is matched exactly. -/
theorem listName_mem_entriesFor_iff (hkind : filter.kind ≠ .order) (hplain : '[' ∉ other.toList)
    (field : Attribute) :
    listName property ∈ Keyed.keys (filter.entriesFor field other strategy) ↔
      property = other ∧ (field.isReference = true ∨
        strategy.getD SearchStrategy.exact.name = SearchStrategy.exact.name) := by
  have hown : listName property ≠ other := fun h => hplain (h ▸ open_mem_listName property)
  have hlist : listName property = listName other ↔ property = other :=
    ⟨listName_injective, congrArg listName⟩
  rw [entriesFor_of_ne_order hkind, valueEntries]
  by_cases hreference : field.isReference = true <;>
    by_cases hexact : strategy.getD SearchStrategy.exact.name = SearchStrategy.exact.name <;>
      simp [hreference, hexact, hown, hlist]

/-- The entries of a property tell the type of its attribute under the name of the property. -/
theorem told_entriesFor (hplain : '[' ∉ property.toList) (field : Attribute) :
    ∃ descriptor, Keyed.get? (filter.toldName property)
        (Keyed.extend description (filter.entriesFor field property strategy)) = some descriptor ∧
      descriptor.semantic = field.semantic := by
  by_cases hkind : filter.kind = .order
  · rw [toldName_of_order hkind, entriesFor, hkind]
    exact ⟨_, Keyed.get?_insert_self _ _ _, rfl⟩
  · have hlist : property ≠ listName property := fun h => hplain (h ▸ open_mem_listName property)
    rw [toldName_of_ne_order hkind, entriesFor_of_ne_order hkind, valueEntries]
    refine ⟨_, Keyed.get?_extend_of_last ?_ _ _ _, rfl⟩
    split
    · simpa using hlist
    · exact List.not_mem_nil

/-- The entries of another property do not mention the name. -/
theorem toldName_notMem_entriesFor (hplain : '[' ∉ property.toList) (hne : property ≠ other)
    (field : Attribute) :
    filter.toldName property ∉ Keyed.keys (filter.entriesFor field other strategy) := by
  by_cases hkind : filter.kind = .order
  · rw [toldName_of_order hkind, entriesFor, hkind]
    intro hmem
    exact hne (orderName_injective (List.mem_singleton.1 hmem))
  · have hlist : property ≠ listName other := fun h => hplain (h ▸ open_mem_listName other)
    rw [toldName_of_ne_order hkind, entriesFor_of_ne_order hkind, valueEntries]
    split <;> split <;> simp [hne, hlist]

/-- The entries of a property: those for the attribute that it leads to, if the filter supports the
type of it, and otherwise none. -/
theorem entriesOf_eq_ok {entries : Description}
    (h : filter.entriesOf registry family property strategy = .ok entries) :
    (∃ path, registry.path family property = .ok path ∧ path.target.semantic ∈ filter.types ∧
        entries = filter.entriesFor path.target property strategy) ∨
      (entries = [] ∧
        ∀ path, registry.path family property = .ok path → path.target.semantic ∉ filter.types) := by
  rw [entriesOf] at h
  split at h
  · next path hpath =>
    split at h
    · next hsupported =>
      cases h
      exact .inl ⟨path, hpath, List.contains_iff_mem.1 hsupported, rfl⟩
    · next hsupported =>
      cases h
      refine .inr ⟨rfl, fun path' hpath' hmem => hsupported ?_⟩
      cases hpath.symm.trans hpath'
      exact List.contains_iff_mem.2 hmem
  · next hpath =>
    cases h
    refine .inr ⟨rfl, fun path' hpath' => ?_⟩
    rw [hpath] at hpath'
    cases hpath'
  · cases h

theorem mem_keys_entriesOf_iff {entries : Description} {name : String}
    (h : filter.entriesOf registry family property strategy = .ok entries) :
    name ∈ Keyed.keys entries ↔
      ∃ path, registry.path family property = .ok path ∧ path.target.semantic ∈ filter.types ∧
        name ∈ Keyed.keys (filter.entriesFor path.target property strategy) := by
  rcases entriesOf_eq_ok h with ⟨path, hpath, hsupported, rfl⟩ | ⟨rfl, hnone⟩
  · constructor
    · exact fun hmem => ⟨path, hpath, hsupported, hmem⟩
    · rintro ⟨path', hpath', -, hmem⟩
      cases hpath.symm.trans hpath'
      exact hmem
  · constructor
    · exact fun hmem => absurd hmem List.not_mem_nil
    · rintro ⟨path, hpath, hsupported, -⟩
      exact absurd hsupported (hnone path hpath)

theorem toldName_notMem_entriesOf {entries : Description} (hplain : '[' ∉ property.toList)
    (hne : property ≠ other)
    (h : filter.entriesOf registry family other strategy = .ok entries) :
    filter.toldName property ∉ Keyed.keys entries := by
  rcases entriesOf_eq_ok h with ⟨path, -, -, rfl⟩ | ⟨rfl, -⟩
  · exact toldName_notMem_entriesFor hplain hne path.target
  · exact List.not_mem_nil

/-! ### The entries of many properties -/

theorem describeFrom_cons_eq_ok {properties : List (String × Option String)} :
    filter.describeFrom registry family description ((property, strategy) :: properties) =
        .ok result ↔
      ∃ entries, filter.entriesOf registry family property strategy = .ok entries ∧
        filter.describeFrom registry family (Keyed.extend description entries) properties =
          .ok result :=
  Outcome.bind_eq_ok_iff

/-- Other properties do not touch the entry of a property. -/
theorem get?_describeFrom_of_notMem (hplain : '[' ∉ property.toList)
    {properties : List (String × Option String)} (hother : property ∉ Keyed.keys properties)
    (h : filter.describeFrom registry family description properties = .ok result) :
    Keyed.get? (filter.toldName property) result =
      Keyed.get? (filter.toldName property) description := by
  induction properties generalizing description with
  | nil =>
    cases h
    rfl
  | cons first rest ih =>
    rw [Keyed.keys_cons, List.mem_cons, not_or] at hother
    obtain ⟨entries, hentries, hrest⟩ := describeFrom_cons_eq_ok.1 h
    rw [ih hother.2 hrest]
    exact Keyed.get?_extend_of_notMem (toldName_notMem_entriesOf hplain hother.1 hentries) _

/-- The names that are told are those of the entries of all properties. -/
theorem mem_keys_describeFrom_iff {name : String} {properties : List (String × Option String)}
    (h : filter.describeFrom registry family description properties = .ok result) :
    name ∈ Keyed.keys result ↔ name ∈ Keyed.keys description ∨
      ∃ entry ∈ properties, ∃ path, registry.path family entry.1 = .ok path ∧
        path.target.semantic ∈ filter.types ∧
          name ∈ Keyed.keys (filter.entriesFor path.target entry.1 entry.2) := by
  induction properties generalizing description with
  | nil =>
    cases h
    simp
  | cons first rest ih =>
    obtain ⟨entries, hentries, hrest⟩ := describeFrom_cons_eq_ok.1 h
    rw [ih hrest, Keyed.mem_keys_extend_iff, mem_keys_entriesOf_iff hentries, or_assoc]
    simp only [List.mem_cons, exists_eq_or_imp]

/-- The type that is told of a property is that of the attribute it leads to, if the filter
supports it. -/
theorem told_describeFrom_iff (hplain : '[' ∉ property.toList)
    {properties : List (String × Option String)} (distinct : (Keyed.keys properties).Nodup)
    (hlisted : property ∈ Keyed.keys properties)
    (hnew : Keyed.get? (filter.toldName property) description = none)
    (h : filter.describeFrom registry family description properties = .ok result)
    (semantic : SemanticType) :
    (∃ descriptor, Keyed.get? (filter.toldName property) result = some descriptor ∧
        descriptor.semantic = semantic) ↔
      ∃ path, registry.path family property = .ok path ∧ path.target.semantic = semantic ∧
        semantic ∈ filter.types := by
  induction properties generalizing description with
  | nil => exact absurd hlisted List.not_mem_nil
  | cons first rest ih =>
    obtain ⟨other, strategy⟩ := first
    rw [Keyed.keys_cons, List.nodup_cons] at distinct
    obtain ⟨entries, hentries, hrest⟩ := describeFrom_cons_eq_ok.1 h
    by_cases hown : property = other
    · subst hown
      rw [get?_describeFrom_of_notMem hplain distinct.1 hrest]
      rcases entriesOf_eq_ok hentries with ⟨path, hpath, hsupported, rfl⟩ | ⟨rfl, hnone⟩
      · obtain ⟨descriptor, hget, htype⟩ := told_entriesFor hplain path.target
        constructor
        · rintro ⟨descriptor', hget', rfl⟩
          cases hget.symm.trans hget'
          exact ⟨path, hpath, htype.symm, htype ▸ hsupported⟩
        · rintro ⟨path', hpath', rfl, -⟩
          cases hpath.symm.trans hpath'
          exact ⟨descriptor, hget, htype⟩
      · have hempty : Keyed.get? (filter.toldName property) (Keyed.extend description []) = none :=
          hnew
        constructor
        · rintro ⟨descriptor, hget, -⟩
          rw [hempty] at hget
          cases hget
        · rintro ⟨path, hpath, rfl, hsupported⟩
          exact absurd hsupported (hnone path hpath)
    · have hkept := Keyed.get?_extend_of_notMem
        (toldName_notMem_entriesOf hplain hown hentries) description
      exact ih distinct.2 (List.mem_of_ne_of_mem hown hlisted) (hkept.trans hnew) hrest

/-! ### Descriptions -/

theorem nodup_keys_describedProperties (filter : Filter) (family : Family) :
    (Keyed.keys (filter.describedProperties family)).Nodup := by
  rw [describedProperties]
  split
  · have hcodes : Keyed.keys (family.codes.map fun code => (code, (none : Option String))) =
        family.codes := by
      rw [Keyed.keys, List.map_map]
      exact List.map_id' _
    rw [hcodes]
    exact family.codes_nodup
  · next distinct _ => exact distinct

/-- The list of a property is told if the property leads to an attribute of a type that the filter
supports, and is a reference or matched exactly. -/
theorem listName_mem_describe_iff (hkind : filter.kind ≠ .order)
    (hdescribe : filter.describe registry resource = .ok description)
    (hfamily : registry.resolve filter.family resource = .ok family)
    (hplain : ∀ name ∈ Keyed.keys (filter.describedProperties family), '[' ∉ name.toList) :
    listName property ∈ Keyed.keys description ↔
      ∃ strategy path, (property, strategy) ∈ filter.describedProperties family ∧
        registry.path family property = .ok path ∧ path.target.semantic ∈ filter.types ∧
          (path.target.isReference = true ∨
            strategy.getD SearchStrategy.exact.name = SearchStrategy.exact.name) := by
  obtain ⟨family', hfamily', hfrom⟩ := Outcome.bind_eq_ok_iff.1 hdescribe
  cases hfamily.symm.trans hfamily'
  rw [mem_keys_describeFrom_iff hfrom, Keyed.keys_nil, or_iff_right List.not_mem_nil]
  constructor
  · rintro ⟨⟨other, strategy⟩, hmem, path, hpath, hsupported, hlist⟩
    have hother := hplain other (Keyed.mem_keys_of_mem hmem)
    obtain ⟨rfl, hexact⟩ := (listName_mem_entriesFor_iff hkind hother path.target).1 hlist
    exact ⟨strategy, path, hmem, hpath, hsupported, hexact⟩
  · rintro ⟨strategy, path, hmem, hpath, hsupported, hexact⟩
    have hown := hplain property (Keyed.mem_keys_of_mem hmem)
    exact ⟨(property, strategy), hmem, path, hpath, hsupported,
      (listName_mem_entriesFor_iff hkind hown path.target).2 ⟨rfl, hexact⟩⟩

/-- A property is told with a type that can be asked for if it leads to an attribute whose values
the filter handles. -/
theorem advertises_iff (hdescribe : filter.describe registry resource = .ok description)
    (hfamily : registry.resolve filter.family resource = .ok family)
    (hlisted : property ∈ Keyed.keys (filter.describedProperties family))
    (hplain : '[' ∉ property.toList) :
    Description.Advertises description (filter.toldName property) ↔
      ∃ path, registry.path family property = .ok path ∧
        filter.handles path.target.semantic = true := by
  obtain ⟨family', hfamily', hfrom⟩ := Outcome.bind_eq_ok_iff.1 hdescribe
  cases hfamily.symm.trans hfamily'
  have htold := told_describeFrom_iff hplain (nodup_keys_describedProperties filter family) hlisted
    rfl hfrom
  constructor
  · rintro ⟨descriptor, hget, hdefinite⟩
    obtain ⟨path, hpath, htype, hsupported⟩ := (htold descriptor.semantic).1 ⟨_, hget, rfl⟩
    rw [← htype] at hsupported hdefinite
    exact ⟨path, hpath, handles_iff.2 ⟨hsupported, hdefinite⟩⟩
  · rintro ⟨path, hpath, hhandles⟩
    obtain ⟨hsupported, hdefinite⟩ := handles_iff.1 hhandles
    obtain ⟨descriptor, hget, htype⟩ := (htold path.target.semantic).2 ⟨path, hpath, rfl, hsupported⟩
    exact ⟨descriptor, hget, htype ▸ hdefinite⟩

theorem exists_description_advertises (filter : Filter) (registry : Registry)
    (resource name : String) {semantic : SemanticType}
    (h : ((filter.describe registry resource).toOption.bind (Keyed.get? name)).map
      Descriptor.semantic = some semantic) (hdefinite : semantic ≠ .mixed) :
    ∃ description family, filter.describe registry resource = .ok description ∧
      registry.resolve filter.family resource = .ok family ∧
      Description.Advertises description name := by
  obtain ⟨descriptor, hbind, rfl⟩ := Option.map_eq_some_iff.1 h
  obtain ⟨description, hdescription, hget⟩ := Option.bind_eq_some_iff.1 hbind
  have hdescribe := Outcome.toOption_eq_some_iff.1 hdescription
  obtain ⟨family, hfamily, -⟩ := Outcome.bind_eq_ok_iff.1 hdescribe
  exact ⟨description, family, hdescribe, hfamily, descriptor, hget, hdefinite⟩

/-! ### Errors -/

section Errors

variable {error : Error}

theorem entriesOf_eq_error_iff :
    filter.entriesOf registry family property strategy = .error error ↔
      registry.Faulty family property error := by
  rw [entriesOf, Registry.Faulty]
  split
  · next path hpath =>
    constructor
    · intro h
      split at h <;> cases h
    · rintro ⟨h, -⟩
      cases hpath.symm.trans h
  · next code name hpath =>
    constructor
    · intro h
      cases h
    · rintro ⟨h, hknown⟩
      cases hpath.symm.trans h
      exact absurd rfl (hknown code name)
  · next other hknown hpath =>
    constructor
    · rintro ⟨⟩
      exact ⟨hpath, fun code name h => hknown code name h⟩
    · rintro ⟨h, -⟩
      cases hpath.symm.trans h
      rfl

theorem entriesOf_eq_error
    (h : filter.entriesOf registry family property strategy = .error error) :
    error.IsLookup ∧ error.side = .server := by
  obtain ⟨hpath, hknown⟩ := entriesOf_eq_error_iff.1 h
  refine ⟨Registry.isLookup_of_path hpath, ?_⟩
  cases error with
  | unknownAttribute family code => exact absurd rfl (hknown family code)
  | _ => rfl

theorem describeFrom_eq_error {properties : List (String × Option String)}
    (h : filter.describeFrom registry family description properties = .error error) :
    error.IsLookup ∧ error.side = .server := by
  induction properties generalizing description with
  | nil => cases h
  | cons entry rest ih =>
    rcases Outcome.bind_eq_error_iff.1 h with h | ⟨entries, -, h⟩
    · exact entriesOf_eq_error h
    · exact ih h

/-- A filter that is described ends at an error of a look-up that is not the client's. -/
theorem describe_eq_error (h : filter.describe registry resource = .error error) :
    error.IsLookup ∧ error.side = .server := by
  rcases Outcome.bind_eq_error_iff.1 h with h | ⟨family, -, h⟩
  · exact Registry.resolve_eq_error h
  · exact describeFrom_eq_error h

end Errors

end Filter

end AttributeFilter
