import AttributeFilter.Proofs.Keyed
import AttributeFilter.Proofs.Outcome
import AttributeFilter.Sample.Catalog
import AttributeFilter.Schema.Builder

/-!
# Building families and registries

A family can be built from its settings, or step by step. Both ways check the same, and find the
same fault first. What they accept is what the definitions say: families and attributes in the order
of their declaration, each found by its own code, every attribute owned by the family that declares
it, and a designated attribute for exactly the roles that were designated.

## Main definitions

* `FamilyBuilder.WellFormed`: distinct attributes, and designations that name some of them.
* `FamilyBuilder.Yields`: a family that is as it was defined.

## Main results

* `Family.fault?_eq_none_iff`: which settings have no fault.
* `FamilyBuilder.build_eq`: building step by step is building from settings.
* `Registry.ofFamilies_eq_ok_iff`: which families make a registry.
* `Registry.exists_ofBuilders_iff`: from which families a registry is built.
* `Registry.built_as_defined`: registries hold what was defined, whichever way they were built.
-/

namespace AttributeFilter

/-! ### Settings without fault -/

namespace Family

variable {code : String} {settings : FamilySettings}

theorem undeclared?_eq_none_iff {role : Role} :
    undeclared? code settings role = none ↔
      ∀ name, settings.designation role = some name → name ∈ Keyed.keys settings.fields := by
  constructor
  · exact undeclared?_eq_none
  · intro h
    rw [undeclared?]
    split
    · rfl
    · next name hname => rw [if_pos (h name hname)]

/-- Settings have no fault if the attributes are distinct and the designations name some of them. -/
theorem fault?_eq_none_iff :
    fault? code settings = none ↔
      (Keyed.keys settings.fields).Nodup ∧ ∀ role name,
        settings.designation role = some name → name ∈ Keyed.keys settings.fields := by
  constructor
  · intro h
    exact ⟨nodup_of_fault?_eq_none h, fun role =>
      undeclared?_eq_none (undeclared?_of_fault?_eq_none h role)⟩
  · rintro ⟨hdistinct, hdeclared⟩
    have hroles : ∀ role, undeclared? code settings role = none := fun role =>
      undeclared?_eq_none_iff.2 (hdeclared role)
    rw [fault?, (Keyed.repeated?_eq_none_iff _).2 hdistinct]
    exact Option.or_eq_none_iff.2 ⟨hroles .label, hroles .identifier⟩

theorem build_of_none (h : fault? code settings = none) :
    build code settings = .ok (ofSettings code settings h) := by
  unfold build
  split <;> simp_all

theorem build_of_some {fault : SchemaFault} (h : fault? code settings = some fault) :
    build code settings = .error (.invalidSchema fault) := by
  unfold build
  split <;> simp_all

theorem eq_of_data {first second : Family} (hcode : first.code = second.code)
    (hclass : first.dataClass = second.dataClass)
    (hattributes : first.attributes = second.attributes) (hlabel : first.label = second.label)
    (hidentifier : first.identifier = second.identifier) : first = second := by
  cases first
  cases second
  cases hcode
  cases hclass
  cases hattributes
  cases hlabel
  cases hidentifier
  rfl

theorem attribute?_eq_some_iff {family : Family} {field : Attribute} :
    family.attribute? code = some field ↔ field ∈ family.attributes ∧ field.code = code := by
  constructor
  · exact fun h => ⟨mem_of_attribute?_eq_some h, code_of_attribute?_eq_some h⟩
  · rintro ⟨hmem, rfl⟩
    exact family.attribute?_code hmem

end Family

/-! ### Building step by step -/

namespace FamilyBuilder

/-- The attributes have distinct codes, and the designations are codes of attributes. -/
def WellFormed (builder : FamilyBuilder) : Prop :=
  (builder.attributes.map Attribute.code).Nodup ∧
    ∀ role name, builder.designation role = some name →
      name ∈ builder.attributes.map Attribute.code

/-- The settings that the steps amount to. The family that an attribute was said to belong to is
none of them. -/
def settings (builder : FamilyBuilder) : FamilySettings where
  dataClass := builder.dataClass
  label := builder.label
  identifier := builder.identifier
  fields := builder.attributes.map fun field => (field.code, field.toAttributeSettings)

variable {builder : FamilyBuilder}

theorem keys_settings (builder : FamilyBuilder) :
    Keyed.keys builder.settings.fields = builder.attributes.map Attribute.code := by
  rw [Keyed.keys, settings, List.map_map]
  rfl

theorem designation_settings (builder : FamilyBuilder) (role : Role) :
    builder.settings.designation role = builder.designation role := by
  cases role <;> rfl

theorem wellFormed_iff :
    builder.WellFormed ↔ Family.fault? builder.code builder.settings = none := by
  simp only [Family.fault?_eq_none_iff, keys_settings, designation_settings, WellFormed]

/-- An attribute taken in ends the steps if its code is known, and else is appended. -/
theorem take_eq {code : String} (intake : Intake code) (field : Attribute) :
    if field.code ∈ intake.codes then
      intake.take field = .error (.invalidSchema (.duplicateAttribute field.code code))
    else ∃ next, intake.take field = .ok next ∧
      next.attributes = intake.attributes ++ [{ field with family := code }] := by
  split
  · next h => exact dif_pos h
  · next h => exact ⟨_, dif_neg h, rfl⟩

/-- Attributes are taken in up to the first one whose code is known by then. -/
theorem foldlM_take_eq {code : String} (fields : List Attribute) (intake : Intake code)
    (seen : List String) (hseen : ∀ name, name ∈ seen ↔ name ∈ intake.codes) :
    match Keyed.repeatedAfter? seen (fields.map Attribute.code) with
    | some repeated => fields.foldlM Intake.take intake =
        .error (.invalidSchema (.duplicateAttribute repeated code))
    | none => ∃ final, fields.foldlM Intake.take intake = .ok final ∧
        final.attributes = intake.attributes ++ fields.map ({ · with family := code }) := by
  induction fields generalizing intake seen with
  | nil => exact ⟨intake, rfl, (List.append_nil _).symm⟩
  | cons field rest ih =>
    have htake := take_eq intake field
    rw [List.map_cons, Keyed.repeatedAfter?, List.foldlM_cons]
    by_cases hknown : field.code ∈ seen
    · rw [if_pos ((hseen _).1 hknown)] at htake
      rw [if_pos hknown, htake]
      rfl
    · rw [if_neg (fun h => hknown ((hseen _).2 h))] at htake
      obtain ⟨next, hnext, hattributes⟩ := htake
      have hcodes : ∀ name, name ∈ field.code :: seen ↔ name ∈ next.codes := fun name => by
        rw [Intake.codes, hattributes, List.map_append, List.mem_append, List.map_singleton,
          List.mem_singleton, List.mem_cons, hseen, Intake.codes, or_comm]
      have hrest := ih next (field.code :: seen) hcodes
      rw [if_neg hknown, hnext]
      cases hrepeated : Keyed.repeatedAfter? (field.code :: seen) (rest.map Attribute.code) with
      | some repeated =>
        rw [hrepeated] at hrest
        exact hrest
      | none =>
        rw [hrepeated] at hrest
        obtain ⟨final, hfinal, hall⟩ := hrest
        refine ⟨final, hfinal, ?_⟩
        rw [hall, hattributes, List.map_cons, List.append_assoc, List.singleton_append]

theorem missing?_eq (builder : FamilyBuilder) :
    builder.missing? (builder.attributes.map Attribute.code) =
      (Family.undeclared? builder.code builder.settings .label).or
        (Family.undeclared? builder.code builder.settings .identifier) := by
  have hrole : builder.missingFor? (builder.attributes.map Attribute.code) =
      Family.undeclared? builder.code builder.settings := funext fun role => by
    cases hcode : builder.designation role <;>
      simp [missingFor?, Family.undeclared?, designation_settings, keys_settings, hcode]
  rw [missing?, hrole, List.findSome?_cons, List.findSome?_cons, List.findSome?_nil]
  cases Family.undeclared? builder.code builder.settings .label with
  | some fault => rfl
  | none => cases Family.undeclared? builder.code builder.settings .identifier <;> rfl

theorem attributes_settings (builder : FamilyBuilder) :
    builder.settings.attributes builder.code =
      builder.attributes.map ({ · with family := builder.code }) := by
  rw [FamilySettings.attributes, settings, List.map_map]
  rfl

theorem conclude_of_some {intake : Intake builder.code} {fault : SchemaFault}
    (h : builder.missing? intake.codes = some fault) :
    builder.conclude intake = .error (.invalidSchema fault) := by
  unfold conclude
  split <;> simp_all

theorem conclude_of_none {intake : Intake builder.code} (h : builder.missing? intake.codes = none) :
    ∃ family, builder.conclude intake = .ok family ∧ family.code = builder.code ∧
      family.dataClass = builder.dataClass ∧ family.attributes = intake.attributes ∧
        family.label = builder.label ∧ family.identifier = builder.identifier := by
  unfold conclude
  split
  · next fault hfault =>
    rw [h] at hfault
    cases hfault
  · exact ⟨_, rfl, rfl, rfl, rfl, rfl, rfl⟩

/-- Attributes that were taken in without repetition become the family of the settings. -/
theorem conclude_eq {intake : Intake builder.code}
    (hrepeated : Keyed.repeated? (Keyed.keys builder.settings.fields) = none)
    (hattributes : intake.attributes =
      builder.attributes.map ({ · with family := builder.code })) :
    builder.conclude intake = Family.build builder.code builder.settings := by
  have hcodes : intake.codes = builder.attributes.map Attribute.code := by
    rw [Intake.codes, hattributes, List.map_map]
    rfl
  have hfault : Family.fault? builder.code builder.settings = builder.missing? intake.codes := by
    rw [Family.fault?, hrepeated, hcodes, missing?_eq]
  cases hmissing : builder.missing? intake.codes with
  | some fault =>
    rw [conclude_of_some hmissing, Family.build_of_some (hfault.trans hmissing)]
  | none =>
    obtain ⟨family, hfamily, hcode, hclass, hfields, hlabel, hidentifier⟩ :=
      conclude_of_none hmissing
    rw [hfamily, Family.build_of_none (hfault.trans hmissing)]
    refine congrArg Except.ok (Family.eq_of_data hcode hclass ?_ hlabel hidentifier)
    exact hfields.trans (hattributes.trans (attributes_settings builder).symm)

/-- Building step by step is building from the settings that the steps amount to. -/
theorem build_eq (builder : FamilyBuilder) :
    builder.build = Family.build builder.code builder.settings := by
  have hfold := foldlM_take_eq builder.attributes (Intake.empty builder.code) [] fun name => by
    simp [Intake.codes, Intake.empty]
  rw [← Keyed.repeated?, ← keys_settings] at hfold
  rw [build]
  cases hrepeated : Keyed.repeated? (Keyed.keys builder.settings.fields) with
  | some repeated =>
    have hfault : Family.fault? builder.code builder.settings =
        some (.duplicateAttribute repeated builder.code) := by
      rw [Family.fault?, hrepeated]
    rw [hrepeated] at hfold
    rw [hfold, Family.build_of_some hfault]
    rfl
  | none =>
    rw [hrepeated] at hfold
    obtain ⟨intake, hintake, hattributes⟩ := hfold
    rw [hintake]
    exact conclude_eq hrepeated hattributes

/-! ### What building yields -/

/-- A family that is as it was defined: its attributes stand in the order of their declaration, are
found by their own codes and belong to it, and those that were designated are. -/
structure Yields (builder : FamilyBuilder) (family : Family) : Prop where
  code_eq : family.code = builder.code
  dataClass_eq : family.dataClass = builder.dataClass
  attributes_eq : family.attributes = builder.attributes.map ({ · with family := builder.code })
  attribute?_eq_some_iff : ∀ code field, family.attribute? code = some field ↔
    field ∈ family.attributes ∧ field.code = code
  owned : ∀ field ∈ family.attributes, field.family = family.code
  isSome_designated? : ∀ role, (family.designated? role).isSome = (builder.designation role).isSome
  code_of_designated? : ∀ role field, family.designated? role = some field →
    builder.designation role = some field.code

theorem yields_ofSettings (h : Family.fault? builder.code builder.settings = none) :
    builder.Yields (Family.ofSettings builder.code builder.settings h) := by
  let family := Family.ofSettings builder.code builder.settings h
  have hdesignation : ∀ role, family.designation role = builder.designation role := fun role => by
    cases role <;> rfl
  refine {
    code_eq := rfl
    dataClass_eq := rfl
    attributes_eq := attributes_settings builder
    attribute?_eq_some_iff := fun code field => Family.attribute?_eq_some_iff
    owned := family.owned
    isSome_designated? := fun role => ?_
    code_of_designated? := fun role field hfield => ?_ }
  · change ((family.designation role).bind family.attribute?).isSome = _
    rw [hdesignation]
    cases hname : builder.designation role with
    | none => rfl
    | some name =>
      have hdeclared := (wellFormed_iff.2 h).2 role name hname
      have hcode : name ∈ family.codes := by
        change name ∈ (builder.settings.attributes builder.code).map Attribute.code
        rwa [FamilySettings.map_code_attributes, keys_settings]
      exact (Family.declares_iff family name).2 hcode
  · obtain ⟨name, hname, hfound⟩ := Option.bind_eq_some_iff.1 hfield
    rw [Family.code_of_attribute?_eq_some hfound, ← hdesignation]
    exact hname

theorem build_ok (hwell : builder.WellFormed) :
    ∃ family, builder.build = .ok family := by
  rw [build_eq, Family.build_of_none (wellFormed_iff.1 hwell)]
  exact ⟨_, rfl⟩

/-- A family that is built comes of well-formed steps, and is as they define it. -/
theorem of_build_eq_ok {family : Family} (h : builder.build = .ok family) :
    builder.WellFormed ∧ builder.Yields family := by
  rw [build_eq] at h
  cases hfault : Family.fault? builder.code builder.settings with
  | some fault =>
    rw [Family.build_of_some hfault] at h
    cases h
  | none =>
    rw [Family.build_of_none hfault] at h
    cases h
    exact ⟨wellFormed_iff.2 hfault, yields_ofSettings hfault⟩

/-! ### Steps of settings -/

theorem addFields_eq (builder : FamilyBuilder) (fields : List (String × AttributeSettings)) :
    builder.addFields fields = { builder with
      attributes := builder.attributes ++
        fields.map fun entry => { entry.2 with code := entry.1, family := "" } } := by
  induction fields generalizing builder with
  | nil =>
    rw [List.map_nil, List.append_nil]
    rfl
  | cons entry rest ih =>
    calc builder.addFields (entry :: rest)
        = (builder.add { entry.2 with code := entry.1, family := "" }).addFields rest := rfl
      _ = _ := by rw [ih, add, List.append_assoc, List.singleton_append, List.map_cons]

/-- The steps of some settings amount to these settings. -/
theorem settings_ofSettings (code : String) (settings : FamilySettings) :
    (ofSettings code settings).code = code ∧ (ofSettings code settings).settings = settings := by
  obtain ⟨dataClass, label, identifier, fields⟩ := settings
  have hfields : (fields.map fun entry =>
      ({ entry.2 with code := entry.1, family := "" } : Attribute)).map
        (fun field => (field.code, field.toAttributeSettings)) = fields := by
    rw [List.map_map]
    exact List.map_id fields
  cases label <;> cases identifier <;>
    simp [ofSettings, addFields_eq, labelled, identified, FamilyBuilder.settings, hfields]

theorem build_ofSettings (code : String) (settings : FamilySettings) :
    (ofSettings code settings).build = Family.build code settings := by
  obtain ⟨hcode, hsettings⟩ := settings_ofSettings code settings
  rw [build_eq, hcode, hsettings]

end FamilyBuilder

/-! ### Registries -/

namespace Registry

/-- Families make a registry if their codes are distinct, as they are in a registry. -/
theorem ofFamilies_eq_ok_iff {families : List Family} {registry : Registry} :
    ofFamilies families = .ok registry ↔ registry.families = families := by
  constructor
  · intro h
    unfold ofFamilies at h
    split at h
    · cases h
      rfl
    · cases h
  · rintro rfl
    unfold ofFamilies
    split
    · rfl
    · next code hcode =>
      rw [(Keyed.repeated?_eq_none_iff _).2 registry.codes_nodup] at hcode
      cases hcode

theorem family?_eq_some_iff {registry : Registry} {code : String} {family : Family} :
    registry.family? code = some family ↔ family ∈ registry.families ∧ family.code = code := by
  constructor
  · exact fun h => ⟨mem_of_family?_eq_some h, code_of_family?_eq_some h⟩
  · rintro ⟨hmem, rfl⟩
    exact registry.family?_code hmem

theorem ofBuilders_eq_ok_iff {builders : List FamilyBuilder} {registry : Registry} :
    ofBuilders builders = .ok registry ↔
      List.Forall₂ (fun builder family => builder.build = .ok family) builders
        registry.families := by
  rw [ofBuilders, Outcome.bind_eq_ok_iff]
  simp only [Outcome.mapM_eq_ok_iff, ofFamilies_eq_ok_iff]
  exact ⟨fun ⟨_, h, he⟩ => he ▸ h, fun h => ⟨_, h, rfl⟩⟩

/-- The families of a registry that is built are well-formed, and are as they were defined. -/
theorem forall₂_yields_of_ofBuilders {builders : List FamilyBuilder} {registry : Registry}
    (h : ofBuilders builders = .ok registry) :
    (∀ builder ∈ builders, builder.WellFormed) ∧
      List.Forall₂ FamilyBuilder.Yields builders registry.families :=
  (List.forall₂_and_left _ _).1
    ((ofBuilders_eq_ok_iff.1 h).imp fun _ _ => FamilyBuilder.of_build_eq_ok)

theorem map_code_eq_of_forall₂_yields {builders : List FamilyBuilder} {families : List Family}
    (h : List.Forall₂ FamilyBuilder.Yields builders families) :
    families.map Family.code = builders.map FamilyBuilder.code := by
  induction h with
  | nil => rfl
  | cons hyields _ ih => rw [List.map_cons, List.map_cons, hyields.code_eq, ih]

/-- A registry is built exactly from well-formed families with distinct codes. -/
theorem exists_ofBuilders_iff {builders : List FamilyBuilder} :
    (∃ registry, ofBuilders builders = .ok registry) ↔
      (∀ builder ∈ builders, builder.WellFormed) ∧ (builders.map FamilyBuilder.code).Nodup := by
  constructor
  · rintro ⟨registry, h⟩
    obtain ⟨hwell, hyields⟩ := forall₂_yields_of_ofBuilders h
    rw [← map_code_eq_of_forall₂_yields hyields]
    exact ⟨hwell, registry.codes_nodup⟩
  · rintro ⟨hwell, hdistinct⟩
    obtain ⟨families, hfamilies⟩ := Outcome.exists_mapM_eq_ok_iff.2 fun builder hbuilder =>
      FamilyBuilder.build_ok (hwell builder hbuilder)
    have hbuilt := Outcome.mapM_eq_ok_iff.1 hfamilies
    have hcodes := map_code_eq_of_forall₂_yields
      (hbuilt.imp fun _ _ h => (FamilyBuilder.of_build_eq_ok h).2)
    exact ⟨⟨families, hcodes ▸ hdistinct⟩, ofBuilders_eq_ok_iff.2 hbuilt⟩

/-- Settings under distinct names stay as they are. -/
theorem keyed_of_distinct {definitions : List (String × FamilySettings)}
    (hfamilies : (Keyed.keys definitions).Nodup)
    (hfields : ∀ entry ∈ definitions, (Keyed.keys entry.2.fields).Nodup) :
    keyed definitions = definitions := by
  have hsame : (definitions.map fun entry =>
      (entry.1, { entry.2 with fields := Keyed.ofList entry.2.fields })) = definitions := by
    rw [List.map_congr_left fun entry hentry => by
      rw [Keyed.ofList_of_nodup (hfields entry hentry)]]
    exact List.map_id definitions
  rw [keyed, hsame, Keyed.ofList_of_nodup hfamilies]

/-- A registry of settings is built by the steps that the settings amount to. -/
theorem ofSchema_eq (definitions : List (String × FamilySettings)) :
    ofSchema definitions = ofBuilders ((keyed definitions).map fun entry =>
      FamilyBuilder.ofSettings entry.1 entry.2) := by
  rw [ofSchema, build, ofBuilders, List.mapM_map]
  simp only [Function.comp_def, FamilyBuilder.build_ofSettings]

/-- **Registries are built as they are defined.** Families that are put together step by step make
a registry exactly if each of them has distinct attributes and designates some of them, and their
codes are distinct. The registry holds them as they were defined, in the same order, each under its
own code. Settings under distinct names give the same registry, or the same error, as the steps
that they amount to. -/
theorem built_as_defined (builders : List FamilyBuilder)
    (definitions : List (String × FamilySettings)) :
    ((∃ registry, ofBuilders builders = .ok registry) ↔
      (∀ builder ∈ builders, builder.WellFormed) ∧ (builders.map FamilyBuilder.code).Nodup) ∧
    (∀ registry, ofBuilders builders = .ok registry →
      List.Forall₂ FamilyBuilder.Yields builders registry.families ∧
        ∀ code family, registry.family? code = some family ↔
          family ∈ registry.families ∧ family.code = code) ∧
    ((Keyed.keys definitions).Nodup →
      (∀ entry ∈ definitions, (Keyed.keys entry.2.fields).Nodup) →
        ofSchema definitions = ofBuilders (definitions.map fun entry =>
          FamilyBuilder.ofSettings entry.1 entry.2)) := by
  refine ⟨exists_ofBuilders_iff, fun registry h => ?_, fun hfamilies hfields => ?_⟩
  · exact ⟨(forall₂_yields_of_ofBuilders h).2, fun code family => family?_eq_some_iff⟩
  · rw [ofSchema_eq, keyed_of_distinct hfamilies hfields]

/-- The steps to the family of brands, with an attribute that was made for makers. -/
def brandSteps : FamilyBuilder :=
  (FamilyBuilder.add { code := "Brand", dataClass := Catalog.brandClass }
    { storage := .shortText, code := "name", family := "Maker" }).labelled "name"

/-- The attribute that was made for makers belongs to brands. The catalog is the same, whether it is
built step by step or from its settings. -/
theorem built_as_defined_brand :
    (∃ registry, ofBuilders [brandSteps] = .ok registry ∧
      List.Forall₂ FamilyBuilder.Yields [brandSteps] registry.families ∧
        registry.families.map (·.attributes.map Attribute.family) = [["Brand"]]) ∧
    (Keyed.keys Catalog.definitions).Nodup ∧
    (∀ entry ∈ Catalog.definitions, (Keyed.keys entry.2.fields).Nodup) ∧
    ofSchema Catalog.definitions = ofBuilders (Catalog.definitions.map fun entry =>
      FamilyBuilder.ofSettings entry.1 entry.2) := by
  have hfamilies : (Keyed.keys Catalog.definitions).Nodup := by decide
  have hfields : ∀ entry ∈ Catalog.definitions, (Keyed.keys entry.2.fields).Nodup := by decide
  obtain ⟨-, hheld, hschema⟩ := built_as_defined [brandSteps] Catalog.definitions
  exact ⟨⟨_, rfl, (hheld _ rfl).1, rfl⟩, hfamilies, hfields, hschema hfamilies hfields⟩

end Registry

end AttributeFilter
