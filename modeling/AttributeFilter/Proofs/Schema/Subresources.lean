import AttributeFilter.Proofs.Schema.Resolution
import AttributeFilter.Sample.Filters
import AttributeFilter.Schema.Metadata

/-!
# Subresources and dotted names

The documentation of a reference tells of a subresource if there is exactly one family that its
values may belong to, and a dotted name goes on behind a reference under the same condition. So a
client that reads of a subresource can ask for the attributes of that family behind a dot; what else
can go wrong then is that the family or the attribute is not known. Behind any other attribute a dot
is a fault of the schema.

## Main definitions

* `Json.NamesOnly`: an option that names one family.
* `Attribute.LeadsTo`: an attribute whose values belong to one family.

## Main results

* `Attribute.traversable?_eq_some_iff`: which attributes can be gone through.
* `Registry.path_behind`: what a dotted name of two segments resolves to.
* `Registry.subresource_iff_traversable`: the documentation of an attribute and what can be asked for
  behind it.
-/

namespace AttributeFilter

/-- The option names one family only: by its code alone, or in a list with no other text. -/
inductive Json.NamesOnly (code : String) : Json → Prop
  | alone : NamesOnly code (.string code)
  | listed {before after : List Json} (hbefore : ∀ item ∈ before, item.text? = none)
      (hafter : ∀ item ∈ after, item.text? = none) :
      NamesOnly code (.array (before ++ .string code :: after))

theorem Json.text?_eq_some_iff {item : Json} {text : String} :
    item.text? = some text ↔ item = .string text := by
  cases item <;> simp [Json.text?]

/-- A list names one family only if there is one text in it. -/
theorem Json.namesOnly_array_iff {code : String} {items : List Json} :
    (Json.array items).NamesOnly code ↔ items.filterMap Json.text? = [code] := by
  rw [List.filterMap_eq_cons_iff]
  constructor
  · rintro (_ | ⟨hbefore, hafter⟩)
    exact ⟨_, _, _, rfl, hbefore, rfl, List.filterMap_eq_nil_iff.2 hafter⟩
  · rintro ⟨before, item, after, rfl, hbefore, hitem, hafter⟩
    rw [Json.text?_eq_some_iff.1 hitem]
    exact .listed hbefore (List.filterMap_eq_nil_iff.1 hafter)

namespace Attribute

variable {field : Attribute} {code : String}

/-- The values of the attribute are related or embedded data, and they may belong to one family
only. -/
structure LeadsTo (field : Attribute) (code : String) : Prop where
  refers : field.isRelation = true ∨ field.isEmbedded = true
  sole : ∃ option, field.option? AttributeSettings.allowedFamiliesKey = some option ∧
    option.NamesOnly code

theorem allowedFamilies_eq_singleton_iff :
    field.allowedFamilies = [code] ↔
      ∃ option, field.option? AttributeSettings.allowedFamiliesKey = some option ∧
        option.NamesOnly code := by
  rw [allowedFamilies]
  split
  · next items hoption => simp [hoption, Json.namesOnly_array_iff]
  · next other hoption =>
    rw [hoption, List.singleton_inj]
    constructor
    · rintro rfl
      exact ⟨_, rfl, .alone⟩
    · rintro ⟨option, hsome, hnames⟩
      cases hsome
      cases hnames
      rfl
  · next harray hstring =>
    constructor
    · intro h
      cases h
    · rintro ⟨option, hoption, hnames⟩
      cases hnames with
      | alone => exact absurd hoption (hstring code)
      | listed => exact absurd hoption (harray _)

/-- An attribute can be gone through if it leads to one family. -/
theorem traversable?_eq_some_iff : field.traversable? = some code ↔ field.LeadsTo code := by
  rw [traversable?]
  split
  · next hrefers =>
    rw [Registry.soleFamily?_eq_some_iff, allowedFamilies_eq_singleton_iff]
    exact ⟨fun h => ⟨Bool.or_eq_true_iff.1 hrefers, h⟩, LeadsTo.sole⟩
  · next hrefers =>
    constructor
    · intro h
      cases h
    · intro h
      exact absurd (Bool.or_eq_true_iff.2 h.refers) hrefers

end Attribute

namespace Registry

variable {registry : Registry} {resource name : String} {family : Family} {field : Attribute}

/-! ### Behind an attribute -/

/-- A dotted name is no designation. -/
theorem ne_name_of_mem_dot {property : String} (h : '.' ∈ property.toList) (role : Role) :
    property ≠ role.name := by
  rintro rfl
  revert h
  cases role <;> decide

/-- What is behind an attribute of the family is what its target declares under the name. -/
theorem path_behind (hfield : family.attribute? field.code = some field)
    (hcode : '.' ∉ field.code.toList) (hname : '.' ∉ name.toList)
    (hnew : family.attribute? (field.code ++ "." ++ name) = none) :
    registry.path family (field.code ++ "." ++ name) =
      (registry.targetOf field >>= fun next => next.getAttribute name).map fun target =>
        { property := field.code ++ "." ++ name, root := family, hops := [field], target } := by
  have hdotted : '.' ∈ (field.code ++ "." ++ name).toList := by simp
  have hspells : Spells (field.code ++ "." ++ name) [field.code, name] :=
    ⟨rfl, by simp [hcode, hname]⟩
  rw [path_of_unnamed hnew (ne_name_of_mem_dot hdotted), if_pos hdotted,
    dottedPath_of_spells hspells]
  cases htarget : registry.targetOf field with
  | error error =>
    have hfollow : registry.follow family field.code [name] = .error error :=
      Outcome.bind_eq_error_iff.2 (.inr ⟨field, getAttribute_eq_ok_iff.2 hfield,
        Outcome.bind_eq_error_iff.2 (.inl htarget)⟩)
    rw [hfollow]
    rfl
  | ok next =>
    rw [follow_cons (getAttribute_eq_ok_iff.2 hfield) htarget, follow_nil]
    change _ = (next.getAttribute name).map _
    cases next.getAttribute name <;> rfl

theorem targetOf_of_leadsTo {code : String} (h : field.LeadsTo code) :
    registry.targetOf field = registry.getFamily code := by
  rw [targetOf, Attribute.traversable?_eq_some_iff.2 h]

theorem targetOf_of_forall_not_leadsTo (h : ∀ code, ¬ field.LeadsTo code) :
    registry.targetOf field = .error (.unexpectedSchema field.code) := by
  have hnone : field.traversable? = none :=
    Option.eq_none_iff_forall_ne_some.2 fun code hcode =>
      h code (Attribute.traversable?_eq_some_iff.1 hcode)
  rw [targetOf, hnone]

/-- Behind an attribute that leads to one family are the attributes of that family. -/
theorem path_behind_of_leadsTo (hfield : family.attribute? field.code = some field)
    (hcode : '.' ∉ field.code.toList) (hname : '.' ∉ name.toList)
    (hnew : family.attribute? (field.code ++ "." ++ name) = none) {code : String}
    (h : field.LeadsTo code) :
    registry.path family (field.code ++ "." ++ name) =
      match registry.family? code with
      | none => .error (.unknownFamily code)
      | some next =>
        match next.attribute? name with
        | none => .error (.unknownAttribute code name)
        | some target => .ok
          { property := field.code ++ "." ++ name, root := family, hops := [field], target } := by
  rw [path_behind hfield hcode hname hnew, targetOf_of_leadsTo h, getFamily]
  cases hnext : registry.family? code with
  | none => rfl
  | some next =>
    change (next.getAttribute name).map _ = _
    rw [Family.getAttribute, code_of_family?_eq_some hnext]
    dsimp only
    cases next.attribute? name <;> rfl

/-- A dotted name is no fault of the schema exactly if it goes on behind an attribute that leads to
one family. -/
theorem forall_path_behind_ne_iff (hfield : family.attribute? field.code = some field)
    (hcode : '.' ∉ field.code.toList) (hname : '.' ∉ name.toList)
    (hnew : family.attribute? (field.code ++ "." ++ name) = none) :
    (∀ blamed, registry.path family (field.code ++ "." ++ name) ≠
        .error (.unexpectedSchema blamed)) ↔
      ∃ code, field.LeadsTo code := by
  constructor
  · intro h
    by_contra hnone
    refine h field.code ?_
    rw [path_behind hfield hcode hname hnew,
      targetOf_of_forall_not_leadsTo (not_exists.1 hnone)]
    rfl
  · rintro ⟨code, hleads⟩ blamed
    rw [path_behind_of_leadsTo hfield hcode hname hnew hleads]
    split
    · simp
    · split <;> simp

/-! ### Subresources -/

/-- The documentation of an attribute of a resource tells of the subresource of the attribute. -/
theorem exists_propertyMetadata (hgoverns : registry.governing resource = .ok family)
    (hfield : family.attribute? field.code = some field) :
    ∃ metadata, registry.propertyMetadata resource field.code = .ok metadata ∧
      metadata.subresource = field.subresource? :=
  ⟨_, Outcome.bind_eq_ok_iff.2 ⟨family, hgoverns, Outcome.bind_eq_ok_iff.2
    ⟨field, getAttribute_eq_ok_iff.2 hfield, rfl⟩⟩, rfl⟩

/-- **Subresources.** A family governs a resource and has an attribute without dots in its code. The
documentation of the attribute tells of a subresource of a family exactly if the attribute leads to
that family, and it tells of none exactly if a dot behind the attribute is a fault of the schema.
What is told of a subresource can be asked for behind the dot: this reaches the attributes of its
family, as far as the family is registered and has such an attribute. -/
theorem subresource_iff_traversable (hgoverns : registry.governing resource = .ok family)
    (hfield : field ∈ family.attributes) (hcode : '.' ∉ field.code.toList)
    (hname : '.' ∉ name.toList) (hnew : field.code ++ "." ++ name ∉ family.codes) :
    ∃ metadata, registry.propertyMetadata resource field.code = .ok metadata ∧
      (metadata.subresource.isSome = true ↔
        ∀ blamed, registry.path family (field.code ++ "." ++ name) ≠
          .error (.unexpectedSchema blamed)) ∧
      (∀ code, metadata.subresource.map Subresource.family = some code ↔ field.LeadsTo code) ∧
      ∀ subresource, metadata.subresource = some subresource →
        (∀ next target, registry.family? subresource.family = some next →
          next.attribute? name = some target →
            registry.path family (field.code ++ "." ++ name) = .ok
              { property := field.code ++ "." ++ name, root := family, hops := [field], target }) ∧
        (registry.family? subresource.family = none →
          registry.path family (field.code ++ "." ++ name) =
            .error (.unknownFamily subresource.family)) ∧
        ∀ next, registry.family? subresource.family = some next → next.attribute? name = none →
          registry.path family (field.code ++ "." ++ name) =
            .error (.unknownAttribute subresource.family name) := by
  have hfield := family.attribute?_code hfield
  have hnew : family.attribute? (field.code ++ "." ++ name) = none := by
    rwa [← Family.declares_iff, Family.declares, Bool.not_eq_true, Option.isSome_eq_false_iff,
      Option.isNone_iff_eq_none] at hnew
  obtain ⟨metadata, hmetadata, hsubresource⟩ := exists_propertyMetadata hgoverns hfield
  have hleads : ∀ code, metadata.subresource.map Subresource.family = some code ↔
      field.LeadsTo code := by
    intro code
    rw [← Attribute.traversable?_eq_some_iff, hsubresource, Attribute.subresource?, Option.map_map]
    cases field.traversable? <;> simp
  refine ⟨metadata, hmetadata, ?_, hleads, fun subresource htold => ?_⟩
  · rw [forall_path_behind_ne_iff hfield hcode hname hnew]
    simp only [← hleads]
    cases metadata.subresource <;> simp
  · have hsole : field.LeadsTo subresource.family :=
      (hleads subresource.family).1 (by rw [htold, Option.map_some])
    rw [path_behind_of_leadsTo hfield hcode hname hnew hsole]
    refine ⟨fun next target hnext htarget => ?_, fun hnone => ?_, fun next hnext hnone => ?_⟩
    · simp only [hnext, htarget]
    · simp only [hnone]
    · simp only [hnext, hnone]

/-- The brand of a product is told of as a subresource, and its country can be asked for. -/
theorem brand_subresource_traversable :
    ∃ family field, Catalog.families.governing Catalog.productClass = .ok family ∧
      field ∈ family.attributes ∧ field.code = "brand" ∧
      ('.' ∉ field.code.toList ∧ '.' ∉ "country".toList ∧
        field.code ++ "." ++ "country" ∉ family.codes) ∧
      ∃ metadata brand country, Catalog.families.propertyMetadata Catalog.productClass field.code =
          .ok metadata ∧
        (metadata.subresource.map Subresource.family = some "Brand" ∧ field.LeadsTo "Brand") ∧
        Catalog.families.family? "Brand" = some brand ∧ brand.attribute? "country" = some country ∧
        Catalog.families.path family (field.code ++ "." ++ "country") = .ok
          { property := field.code ++ "." ++ "country", root := family, hops := [field],
            target := country } := by
  have hproduct : ((Catalog.families.governing Catalog.productClass).toOption.any fun family =>
      (family.attribute? "brand").any fun field =>
        field.traversable? = some "Brand" ∧ "brand.country" ∉ family.codes) = true := by
    decide +kernel
  have hbrand : ((Catalog.families.family? "Brand").any fun brand =>
      (brand.attribute? "country").isSome) = true := by
    decide +kernel
  obtain ⟨family, hfamily, hproduct⟩ := (Option.any_eq_true ..).1 hproduct
  obtain ⟨field, hfield, hproduct⟩ := (Option.any_eq_true ..).1 hproduct
  obtain ⟨brand, hknown, hbrand⟩ := (Option.any_eq_true ..).1 hbrand
  obtain ⟨country, hcountry⟩ := Option.isSome_iff_exists.1 hbrand
  obtain ⟨hleads, hnew⟩ := of_decide_eq_true hproduct
  have hgoverns := Outcome.toOption_eq_some_iff.1 hfamily
  have hdeclared := Family.mem_of_attribute?_eq_some hfield
  have hcode := Family.code_of_attribute?_eq_some hfield
  have hplain : '.' ∉ field.code.toList := by
    rw [hcode]
    decide
  have hnew : field.code ++ "." ++ "country" ∉ family.codes := by rwa [hcode]
  obtain ⟨metadata, hmetadata, -, hiff, hbehind⟩ :=
    subresource_iff_traversable hgoverns hdeclared hplain (by decide) hnew
  have hleads := Attribute.traversable?_eq_some_iff.1 hleads
  have htold := (hiff "Brand").2 hleads
  obtain ⟨subresource, hsubresource, hname⟩ := Option.map_eq_some_iff.1 htold
  refine ⟨family, field, hgoverns, hdeclared, hcode, ⟨hplain, by decide, hnew⟩, metadata, brand,
    country, hmetadata, ⟨htold, hleads⟩, hknown, hcountry, ?_⟩
  exact (hbehind subresource hsubresource).1 brand country (hname ▸ hknown) hcountry

end Registry

end AttributeFilter
