import AttributeFilter.Proofs.Filter.Meaning
import AttributeFilter.Proofs.Parameter.Readings
import AttributeFilter.Proofs.Schema.Resolution
import AttributeFilter.Sample.Wardrobe

/-!
# The parameters that a filter looks at

A query text is read as it arrives, and read again as it was sent if one of the filter's dotted
properties may have arrived. That is decided once for the whole text, by the names under which
these properties would arrive if only dots were replaced; since blanks are replaced too, a dotted
property with a blank never gives the occasion. What a filter makes of a property depends on
nothing but the value of that property in the reading that is taken.

## Main definitions

* `Filter.modeFor`: the mode in which a filter reads a query text.
* `Filter.DottedArrives`: what makes a filter read a query text again.
* `Filter.Compiles`: a test that a filter makes for a property.

## Main results

* `Filter.modeFor_eq_preserved_iff`: when a query text is read again.
* `Filter.dotted_property_kept_iff`: when a dotted property keeps its parameter.
* `Filter.compiles_iff`: the test for a property depends on the value of the property alone.
* `Filter.compiles_join`: the test for a property is kept when parameters of other names are added,
  unless they change the mode and the modes give the property different values.
-/

namespace AttributeFilter.Filter

open QueryText (arrivalName)

variable {filter : Filter} {registry : Registry} {resource name property text : String}
  {path : AttributePath} {test : Test}

def modeFor (filter : Filter) (text : String) : KeyMode :=
  if filter.needsExpansion (.ofQueryText text) then .preserved else .flattened

/-- A parameter arrives under the name of one of the filter's dotted properties without blanks. -/
def DottedArrives (filter : Filter) (text : String) : Prop :=
  ∃ name ∈ Keyed.keys filter.properties.entries, isDotted name = true ∧ ' ' ∉ name.toList ∧
    arrivalName name ∈ Keyed.keys (QueryText.parse .flattened text)

/-- For a query text the filter makes the test for the property, at the attribute on the path. -/
def Compiles (filter : Filter) (registry : Registry) (resource text property : String)
    (path : AttributePath) (test : Test) : Prop :=
  path.property = property ∧
    (path, test) ∈ (filter.plan registry (some (.ofQueryText text)) resource).tests

/-! ### The mode -/

theorem extract_ofQueryText (filter : Filter) (text : String) :
    filter.extract (.ofQueryText text) = QueryText.parse (filter.modeFor text) text := by
  rw [extract, modeFor]
  split <;> rfl

theorem isDotted_iff : isDotted name = true ↔ '.' ∈ name.toList := by
  simp [isDotted, segmentSeparator]

/-- Without blanks, the replacement of dots is all that happens to a name on its way. -/
theorem flattenedName_of_no_blank (h : ' ' ∉ name.toList) :
    flattenedName name = arrivalName name := by
  refine congrArg String.ofList (List.map_congr_left fun c hc => ?_)
  have hblank : c ≠ ' ' := fun heq => h (heq ▸ hc)
  exact if_congr (by rw [segmentSeparator, or_iff_left hblank]) rfl rfl

/-- Blanks outlast the replacement of dots. -/
theorem blank_mem_flattenedName (h : ' ' ∈ name.toList) : ' ' ∈ (flattenedName name).toList := by
  rw [flattenedName, String.toList_ofList]
  exact List.mem_map.2 ⟨' ', h, rfl⟩

/-- No name arrives with a dot or a blank. -/
theorem plain_of_arrives (h : name ∈ Keyed.keys (QueryText.parse .flattened text)) :
    '.' ∉ name.toList ∧ ' ' ∉ name.toList := by
  obtain ⟨sent, -, rfl⟩ := QueryText.mem_keys_parse_flattened_iff.1 h
  rw [← String.ofList_toList (s := sent), ← QueryText.ofList_rename_flattened, String.toList_ofList]
  exact KeyMode.not_mem_rename_flattened sent.toList

/-- A query text is read again if a parameter arrives under the name of one of the filter's dotted
properties without blanks. -/
theorem modeFor_eq_preserved_iff : filter.modeFor text = .preserved ↔ filter.DottedArrives text := by
  have hmode : filter.modeFor text = .preserved ↔
      filter.needsExpansion (.ofQueryText text) = true := by
    rw [modeFor]
    split <;> simp_all
  have harrives : ∀ name, (Request.ofQueryText text).has (flattenedName name) = true ↔
      ' ' ∉ name.toList ∧ arrivalName name ∈ Keyed.keys (QueryText.parse .flattened text) := by
    intro name
    rw [Request.has, Keyed.contains_iff]
    by_cases hblank : ' ' ∈ name.toList
    · have hnever : flattenedName name ∉ Keyed.keys (QueryText.parse .flattened text) :=
        fun hmem => (plain_of_arrives hmem).2 (blank_mem_flattenedName hblank)
      exact ⟨fun hmem => absurd hmem hnever, fun h => absurd hblank h.1⟩
    · rw [flattenedName_of_no_blank hblank]
      exact ⟨fun hmem => ⟨hblank, hmem⟩, fun h => h.2⟩
  rw [hmode, needsExpansion, List.any_eq_true]
  simp only [Bool.and_eq_true, harrives, DottedArrives, Keyed.keys, List.mem_map]
  constructor
  · rintro ⟨entry, hentry, h⟩
    exact ⟨entry.1, ⟨entry, hentry, rfl⟩, h⟩
  · rintro ⟨_, ⟨entry, hentry, rfl⟩, h⟩
    exact ⟨entry, hentry, h⟩

/-! ### Dotted properties -/

/-- **When a dotted property keeps its parameter.** A dotted property of the filter under whose
very name a parameter was sent is found, with the value that was sent, exactly if a parameter arrives
under the name of a dotted property of the filter without blanks. If the property has no blank
itself, that is the case. -/
theorem dotted_property_kept_iff (hkind : filter.kind ≠ .order)
    (hlisted : property ∈ Keyed.keys filter.properties.entries) (hdotted : isDotted property = true)
    {value : Parameter}
    (hsent : Keyed.get? property (QueryText.parse .preserved text) = some value) :
    ∃ parameters, filter.parametersOf? (.ofQueryText text) = some parameters ∧
      (Keyed.get? property parameters = some value ↔ filter.DottedArrives text) ∧
      (' ' ∉ property.toList → Keyed.get? property parameters = some value) := by
  have hiff : Keyed.get? property (filter.extract (.ofQueryText text)) = some value ↔
      filter.DottedArrives text := by
    rw [← modeFor_eq_preserved_iff, extract_ofQueryText]
    cases hmode : filter.modeFor text with
    | preserved => simp [hsent]
    | flattened =>
      have hnever : property ∉ Keyed.keys (QueryText.parse .flattened text) :=
        fun hmem => (plain_of_arrives hmem).1 (isDotted_iff.1 hdotted)
      rw [← Keyed.get?_isSome_iff, Option.not_isSome_iff_eq_none] at hnever
      simp [hnever]
  refine ⟨_, parametersOf?_of_ne_order hkind _, hiff, fun hblank => hiff.2 ?_⟩
  have hmem : property ∈ Keyed.keys (QueryText.parse .preserved text) :=
    (Keyed.get?_isSome_iff _ _).1 (Option.isSome_of_eq_some hsent)
  exact ⟨property, hlisted, hdotted, hblank,
    QueryText.mem_keys_parse_flattened_iff.2 ⟨property, hmem, rfl⟩⟩

/-- The name of the maker is found, whatever else is sent. -/
theorem dotted_maker_name_kept :
    Wardrobe.style.kind ≠ .order ∧
      "maker.name" ∈ Keyed.keys Wardrobe.style.properties.entries ∧
      isDotted "maker.name" = true ∧
      Keyed.get? "maker.name" (QueryText.parse .preserved "page=2&maker.name=Acme") =
        some (.scalar "Acme") ∧
      ∃ parameters,
        Wardrobe.style.parametersOf? (.ofQueryText "page=2&maker.name=Acme") = some parameters ∧
          (Keyed.get? "maker.name" parameters = some (.scalar "Acme") ↔
            Wardrobe.style.DottedArrives "page=2&maker.name=Acme") ∧
          (' ' ∉ "maker.name".toList →
            Keyed.get? "maker.name" parameters = some (.scalar "Acme")) := by
  have hsent : Keyed.get? "maker.name" (QueryText.parse .preserved "page=2&maker.name=Acme") =
      some (.scalar "Acme") := QueryText.get?_eq_scalar_iff.2 (by decide +kernel)
  have hlisted : "maker.name" ∈ Keyed.keys Wardrobe.style.properties.entries := by decide
  exact ⟨by decide, hlisted, by decide, hsent,
    dotted_property_kept_iff (by decide) hlisted (by decide) hsent⟩

/-- The home country of the maker is lost if it is sent alone: its name arrives with the blank
replaced as well. -/
theorem dotted_home_country_lost :
    Wardrobe.origin.kind ≠ .order ∧
      "maker.home country" ∈ Keyed.keys Wardrobe.origin.properties.entries ∧
      isDotted "maker.home country" = true ∧
      Keyed.get? "maker.home country" (QueryText.parse .preserved "maker.home%20country=FR") =
        some (.scalar "FR") ∧
      ∃ parameters,
        Wardrobe.origin.parametersOf? (.ofQueryText "maker.home%20country=FR") =
            some parameters ∧
          Keyed.get? "maker.home country" parameters = none := by
  have hsent : Keyed.get? "maker.home country"
      (QueryText.parse .preserved "maker.home%20country=FR") = some (.scalar "FR") :=
    QueryText.get?_eq_scalar_iff.2 (by decide +kernel)
  have hmode : Wardrobe.origin.modeFor "maker.home%20country=FR" = .flattened := by
    decide +kernel
  have habsent : "maker.home country" ∉
      Keyed.keys (QueryText.parse .flattened "maker.home%20country=FR") := by
    decide +kernel
  refine ⟨by decide, by decide, by decide, hsent, _, parametersOf?_of_ne_order (by decide) _, ?_⟩
  rwa [extract_ofQueryText, hmode, ← Option.not_isSome_iff_eq_none, Keyed.get?_isSome_iff]

/-! ### One text behind another -/

theorem mem_tests_iff {plan : Plan} :
    (path, test) ∈ plan.tests ↔ { path, effect := .test test } ∈ plan.steps := by
  rw [Plan.tests, List.mem_filterMap]
  constructor
  · rintro ⟨step, hstep, htest⟩
    obtain ⟨stepPath, effect⟩ := step
    cases effect <;> simp_all [Step.test?]
  · intro hstep
    exact ⟨_, hstep, rfl⟩

/-- The test for a property depends on what the property holds alone, in the reading that is
taken. -/
theorem compiles_iff (hkind : filter.kind ≠ .order)
    (hended : (filter.plan registry (some (.ofQueryText text)) resource).error? = none) :
    filter.Compiles registry resource text property path test ↔
      ∃ given, Keyed.get? property (QueryText.parse (filter.modeFor text) text) = some given ∧
        filter.step? registry resource property given =
          .ok (some { path, effect := .test test }) := by
  have hdistinct := QueryText.nodup_keys_parse (filter.modeFor text) text
  rw [plan_of_ne_order hkind, extract_ofQueryText] at hended
  rw [Compiles, plan_of_ne_order hkind, extract_ofQueryText, mem_tests_iff]
  constructor
  · rintro ⟨hproperty, hstep⟩
    obtain ⟨⟨other, given⟩, hmem, hentry⟩ := mem_steps_planFor hstep
    obtain ⟨_, ⟨family, _, hpath⟩, _⟩ := step?_eq_some_iff.1 hentry
    have hother : other = property := (Registry.property_of_path hpath).symm.trans hproperty
    subst hother
    exact ⟨given, (Keyed.get?_eq_some_iff_mem hdistinct).2 hmem, hentry⟩
  · rintro ⟨given, hget, hentry⟩
    obtain ⟨_, ⟨family, _, hpath⟩, _⟩ := step?_eq_some_iff.1 hentry
    refine ⟨Registry.property_of_path hpath, ?_⟩
    exact mem_steps_planFor_of_concluded (concluded_of_error?_eq_none hended)
      ((Keyed.get?_eq_some_iff_mem hdistinct).1 hget) hentry

theorem exists_path_of_effect {outcome : Except Error (Option Step)} {effect : Effect}
    (h : outcome.toOption.join.map Step.effect = some effect) :
    ∃ path, outcome = .ok (some { path, effect }) := by
  obtain ⟨⟨path, _⟩, hstep, rfl⟩ := Option.map_eq_some_iff.1 h
  rw [Option.join_eq_some_iff, Outcome.toOption_eq_some_iff] at hstep
  exact ⟨path, hstep⟩

theorem step?_long_sleeves :
    ∃ path, Wardrobe.style.step? Wardrobe.families Wardrobe.shirtClass "sleeve_style"
      (.scalar "long") = .ok (some { path, effect := .test (.like "%long%") }) :=
  exists_path_of_effect (by decide +kernel)

/-- In either mode a property holds the same with more behind the text, if nothing there arrives
under its name. -/
theorem get?_parse_join_of_arrives {mode : KeyMode} {first second : String}
    (hother : ∀ sent ∈ Keyed.keys (QueryText.parse .preserved ("&" ++ second)),
      arrivalName sent ≠ arrivalName property) :
    Keyed.get? property (QueryText.parse mode (first ++ "&" ++ second)) =
      Keyed.get? property (QueryText.parse mode first) := by
  refine QueryText.get?_parse_join fun hmem => ?_
  cases mode with
  | preserved => exact hother property hmem rfl
  | flattened =>
    obtain ⟨sent, hsent, harrives⟩ := QueryText.mem_keys_parse_flattened_iff.1 hmem
    rw [← harrives, QueryText.arrivalName_arrivalName] at hother
    exact hother sent hsent rfl

/-- **Other parameters keep the test for a property.** Let no parameter of a second text arrive
under the name of the property; behind the first text, a question mark in front is part of a name.
The test that is made for the property when the first text is sent alone is made as well when the
second one is behind it, if both are read in one mode, or else if the first text gives the property
the same value in both modes. -/
theorem compiles_join (hkind : filter.kind ≠ .order) {first second : String}
    (hother : ∀ sent ∈ Keyed.keys (QueryText.parse .preserved ("&" ++ second)),
      arrivalName sent ≠ arrivalName property)
    (hread : filter.modeFor (first ++ "&" ++ second) = filter.modeFor first ∨
      Keyed.get? property (QueryText.parse .flattened first) =
        Keyed.get? property (QueryText.parse .preserved first))
    (hfirst : (filter.plan registry (some (.ofQueryText first)) resource).error? = none)
    (hcompiles : filter.Compiles registry resource first property path test)
    (hjoin : (filter.plan registry (some (.ofQueryText (first ++ "&" ++ second)))
      resource).error? = none) :
    filter.Compiles registry resource (first ++ "&" ++ second) property path test := by
  rw [compiles_iff hkind hfirst] at hcompiles
  obtain ⟨given, hgiven, hstep⟩ := hcompiles
  have hsame : Keyed.get? property
        (QueryText.parse (filter.modeFor (first ++ "&" ++ second)) first) =
      Keyed.get? property (QueryText.parse (filter.modeFor first) first) := by
    rcases hread with hmode | hvalue
    · rw [hmode]
    · cases filter.modeFor (first ++ "&" ++ second) <;> cases filter.modeFor first <;>
        simp only [hvalue]
  refine (compiles_iff hkind hjoin).2 ⟨given, ?_, hstep⟩
  rw [get?_parse_join_of_arrives hother, hsame, hgiven]

/-- The search for sleeves is kept when the name of the maker is added, though the text is then read
again. -/
theorem long_sleeves_kept :
    ∃ path,
      Wardrobe.style.modeFor "sleeve_style=long" ≠
          Wardrobe.style.modeFor ("sleeve_style=long" ++ "&" ++ "maker.name=Acme") ∧
        Wardrobe.style.Compiles Wardrobe.families Wardrobe.shirtClass "sleeve_style=long"
          "sleeve_style" path (.like "%long%") ∧
        Wardrobe.style.Compiles Wardrobe.families Wardrobe.shirtClass
          ("sleeve_style=long" ++ "&" ++ "maker.name=Acme") "sleeve_style" path
          (.like "%long%") := by
  have hkind : Wardrobe.style.kind ≠ .order := by decide
  obtain ⟨path, hstep⟩ := step?_long_sleeves
  have hfirst : (Wardrobe.style.plan Wardrobe.families
      (some (.ofQueryText "sleeve_style=long")) Wardrobe.shirtClass).error? = none := by
    decide +kernel
  have hcompiles : Wardrobe.style.Compiles Wardrobe.families Wardrobe.shirtClass
      "sleeve_style=long" "sleeve_style" path (.like "%long%") :=
    (compiles_iff hkind hfirst).2
      ⟨_, QueryText.get?_eq_scalar_iff.2 (by decide +kernel), hstep⟩
  have hvalue := QueryText.get?_parse_of_sent_as_named
    (show arrivalName "sleeve_style" = "sleeve_style" by decide)
    (show ∀ other ∈ Keyed.keys (QueryText.parse .preserved "sleeve_style=long"), _ by
      decide +kernel)
  exact ⟨path, by decide +kernel, hcompiles,
    compiles_join hkind (by decide +kernel) (.inr hvalue) hfirst hcompiles (by decide +kernel)⟩

/-- If the sleeves were sent under a name with a dot, their search is lost when the name of the
maker is added. -/
theorem long_sleeves_lost :
    Wardrobe.style.kind ≠ .order ∧
      "sleeve_style" ∈ Keyed.keys Wardrobe.style.properties.entries ∧
      (∀ sent ∈ Keyed.keys (QueryText.parse .preserved "maker.name=Acme"),
        arrivalName sent ≠ arrivalName "sleeve_style") ∧
      (Wardrobe.style.plan Wardrobe.families (some (.ofQueryText "sleeve.style=long"))
        Wardrobe.shirtClass).error? = none ∧
      (∃ path, Wardrobe.style.Compiles Wardrobe.families Wardrobe.shirtClass "sleeve.style=long"
        "sleeve_style" path (.like "%long%")) ∧
      (Wardrobe.style.plan Wardrobe.families
        (some (.ofQueryText ("sleeve.style=long" ++ "&" ++ "maker.name=Acme")))
        Wardrobe.shirtClass).error? = none ∧
      ∀ path test, ¬ Wardrobe.style.Compiles Wardrobe.families Wardrobe.shirtClass
        ("sleeve.style=long" ++ "&" ++ "maker.name=Acme") "sleeve_style" path test := by
  have hkind : Wardrobe.style.kind ≠ .order := by decide
  obtain ⟨path, hstep⟩ := step?_long_sleeves
  have hfirst : (Wardrobe.style.plan Wardrobe.families
      (some (.ofQueryText "sleeve.style=long")) Wardrobe.shirtClass).error? = none := by
    decide +kernel
  have hjoin : (Wardrobe.style.plan Wardrobe.families
      (some (.ofQueryText ("sleeve.style=long" ++ "&" ++ "maker.name=Acme")))
      Wardrobe.shirtClass).error? = none := by
    decide +kernel
  have habsent : Keyed.get? "sleeve_style" (QueryText.parse
      (Wardrobe.style.modeFor ("sleeve.style=long" ++ "&" ++ "maker.name=Acme"))
      ("sleeve.style=long" ++ "&" ++ "maker.name=Acme")) = none := by
    rw [← Option.not_isSome_iff_eq_none, Keyed.get?_isSome_iff]
    decide +kernel
  refine ⟨hkind, by decide, by decide +kernel, hfirst, ⟨path, (compiles_iff hkind hfirst).2
    ⟨_, QueryText.get?_eq_scalar_iff.2 (by decide +kernel), hstep⟩⟩, hjoin, ?_⟩
  intro path test hcompiles
  obtain ⟨given, hgiven, -⟩ := (compiles_iff hkind hjoin).1 hcompiles
  rw [habsent] at hgiven
  cases hgiven

end AttributeFilter.Filter
