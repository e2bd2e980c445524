import AttributeFilter.Proofs.Filter.Acceptance

/-!
# Advertised lists

A filter on values advertises a list of values for a property that is matched exactly, and for every
reference, since references are meant to be matched by their identifiers. Whether it makes anything
of a list that is sent is decided by its kind: a search uses lists only where its strategy is the
exact one. So the two agree but for references that are searched otherwise. Their lists are
advertised, and dropped without an error when they come.

## Main definitions

* `QueryText.ReadsAs`: a query text that is read like a pair alone.
* `Filter.listPair`: the pair that gives a property a list of one value.
* `Filter.Transports`: a name that a request brings as it is.
* `Filter.UsesList`: a filter makes something of a list of the property.

## Main results

* `Filter.usesList_of_advertised`: a list that is advertised for another reason than a reference is
  used.
* `Filter.addsTest_of_usesList`, `Filter.apply_of_not_usesList`: what comes of a list that is sent.
* `Filter.advertised_list_accepted_iff`: which advertised lists are accepted.
-/

namespace AttributeFilter

namespace QueryText

variable {mode : KeyMode} {text : String} {pair : Pair}

/-- The query text is read like that of the pair alone, in whatever way its signs are escaped. -/
def ReadsAs (text : String) (pair : Pair) : Prop :=
  pairs .preserved text = pairs .preserved (single pair)

instance (text : String) (pair : Pair) : Decidable (ReadsAs text pair) :=
  inferInstanceAs (Decidable (_ = _))

theorem parse_of_no_pairs (h : pairs .preserved text = []) : parse mode text = [] := by
  have hpairs : pairs mode text = [] := by
    cases mode with
    | preserved => exact h
    | flattened => rw [pairs_flattened, h, List.map_nil]
  rw [parse, hpairs, List.foldl_nil]

end QueryText

namespace Filter

open QueryText (Pair SendsOnly ReadsAs)

variable {filter : Filter} {registry : Registry} {resource property text value : String}
  {family : Family} {description : Description} {path : AttributePath}

def listPair (property value : String) : Pair where
  base := property
  segments := [.append]
  text := value

/-- A request brings the name to the filter as it is: there is neither a bracket nor a blank in it,
and no dot if the filter handles all properties. -/
def Transports (filter : Filter) (name : String) : Prop :=
  ('[' ∉ name.toList ∧ ' ' ∉ name.toList) ∧ (filter.properties = .all → '.' ∉ name.toList)

instance (filter : Filter) (name : String) : Decidable (filter.Transports name) :=
  inferInstanceAs (Decidable (_ ∧ (_ → _)))

/-- The filter makes a test of a list of the property: the property has a name, and if the filter
searches, it searches the property exactly. -/
def UsesList (filter : Filter) (property : String) : Prop :=
  property ≠ "" ∧ (filter.kind = .search → filter.searchStrategy property = .ok .exact)

/-! ### Lists that are used -/

theorem not_drops_of_usesList (huses : filter.UsesList property) (items : List Parameter) :
    ¬ filter.Drops property (.list items) :=
  fun hdrops => hdrops.2 (huses.2 hdrops.1)

theorem drops_of_not_usesList (hne : property ≠ "") (huses : ¬ filter.UsesList property)
    (items : List Parameter) : filter.Drops property (.list items) := by
  rw [UsesList, not_and, Classical.not_imp] at huses
  exact huses hne

/-- The strategy that a filter describes a property by is the one that it searches it by. -/
theorem searchStrategy_of_described {strategy : Option String}
    (h : (property, strategy) ∈ filter.describedProperties family) :
    filter.searchStrategy property = SearchStrategy.ofName strategy := by
  rw [describedProperties] at h
  rw [searchStrategy, PropertySet.strategy?]
  split at h
  · next hall =>
    obtain ⟨code, -, heq⟩ := List.mem_map.1 h
    cases heq
    rw [hall]
    rfl
  · next strategies distinct hall =>
    rw [hall, PropertySet.entries, (Keyed.get?_eq_some_iff_mem distinct).2 h]
    rfl

/-- A list that is advertised for another reason than a reference is used. -/
theorem usesList_of_advertised {strategy : Option String} (hne : property ≠ "")
    (h : (property, strategy) ∈ filter.describedProperties family)
    (hexact : strategy.getD SearchStrategy.exact.name = SearchStrategy.exact.name) :
    filter.UsesList property := by
  refine ⟨hne, fun _ => ?_⟩
  rw [searchStrategy_of_described h]
  cases strategy with
  | none => rfl
  | some name =>
    rw [Option.getD_some] at hexact
    rw [hexact]
    rfl

/-! ### Lists sent alone -/

/-- A list of one value that is sent alone is all that a filter finds. -/
theorem extract_of_readsAs_listPair (hne : property ≠ "") (htransports : filter.Transports property)
    (hdescribed : property ∈ Keyed.keys (filter.describedProperties family))
    (htext : ReadsAs text (listPair property value)) :
    filter.extract (.ofQueryText text) = [(property, .list [.scalar value])] := by
  have hentries : '.' ∈ property.toList → property ∈ Keyed.keys filter.properties.entries :=
    fun hmem => mem_entries_of_described (fun hall => htransports.2 hall hmem) hdescribed
  have hsends : SendsOnly text (listPair property value) := by
    refine htext.trans ((QueryText.pairs_single htransports.1.1 ?_ ?_).trans (if_neg hne))
    · exact fun name hname => absurd (List.mem_singleton.1 hname) nofun
    · exact show 1 ≤ Key.maxNesting by decide
  exact extract_of_sendsOnly hne htransports.1.2 hentries hsends

/-- Without a name for the property nothing is found. -/
theorem extract_of_readsAs_unnamed (htext : ReadsAs text (listPair "" value)) :
    filter.extract (.ofQueryText text) = [] := by
  rw [extract_ofQueryText]
  refine QueryText.parse_of_no_pairs (htext.trans ?_)
  refine (QueryText.pairs_single List.not_mem_nil ?_ ?_).trans (if_pos rfl)
  · exact fun name hname => absurd (List.mem_singleton.1 hname) nofun
  · exact show 1 ≤ Key.maxNesting by decide

section Sent

variable (hkind : filter.kind ≠ .order)
  (hfamily : registry.resolve filter.family resource = .ok family)
  (htransports : filter.Transports property)
  (hdescribed : property ∈ Keyed.keys (filter.describedProperties family))
  (hpath : registry.path family property = .ok path)
  (hhandles : filter.handles path.target.semantic = true)
  (htext : ReadsAs text (listPair property value))

include hkind hfamily htransports hdescribed hpath hhandles htext

/-- A list that is used gives a query one more condition, a single test at the attribute of the
property. -/
theorem addsTest_of_usesList (huses : filter.UsesList property) (query : Query) :
    filter.AddsTest registry resource (.ofQueryText text) query path := by
  have hparameters : filter.parametersOf? (.ofQueryText text) =
      some [(property, .list [.scalar value])] := by
    rw [parametersOf?_of_ne_order hkind,
      extract_of_readsAs_listPair huses.1 htransports hdescribed htext]
  obtain ⟨test, heffect⟩ := exists_test_of_not_drops hkind (not_drops_of_usesList huses _)
  exact addsTest_alone hparameters hfamily (contains_of_described hdescribed) heffect hpath
    hhandles query

/-- Any other list leaves a query as it is, but for a condition that always holds. -/
theorem apply_of_not_usesList (huses : ¬ filter.UsesList property) (query : Query) :
    query.apply registry filter (some (.ofQueryText text)) resource =
      (query.attach .always, none) := by
  by_cases hne : property = ""
  · subst hne
    rw [Query.apply, plan_of_ne_order hkind, extract_of_readsAs_unnamed htext, planFor,
      Query.follow_of_no_effect rfl rfl rfl]
    rfl
  · have hparameters : filter.parametersOf? (.ofQueryText text) =
        some [(property, .list [.scalar value])] := by
      rw [parametersOf?_of_ne_order hkind,
        extract_of_readsAs_listPair hne htransports hdescribed htext]
    have hdrops := drops_of_not_usesList hne huses [.scalar value]
    obtain ⟨effect, heffect⟩ := effect_isOk filter property (.list [.scalar value])
    rw [effect_of_drops hdrops heffect] at heffect
    exact apply_alone_of_nothing hparameters hfamily (contains_of_described hdescribed) heffect
      hpath hhandles query

end Sent

/-! ### Advertised lists -/

/-- A condition that always holds is no test. -/
theorem not_addsTest_of_attach_always {request : Request} {query : Query}
    (h : query.apply registry filter (some request) resource = (query.attach .always, none)) :
    ¬ filter.AddsTest registry resource request query path := by
  rintro ⟨next, test, happly, hconditions⟩
  cases h.symm.trans happly
  have hlast := List.append_cancel_left hconditions
  cases hlast

/-- **When an advertised list is accepted.** Take a filter on values whose names a request brings as
they are, a resource that it describes itself for, and a property for which the description
advertises a list. The property leads to an attribute; if its values are not of the mixed type, a
list of one value that is sent alone gives a query one more condition, a single test at the end of
the path of the property, exactly if the filter uses lists of the property. If it does not, it ends
without error and adds a condition that always holds. Apart from the property without a name, that
comes to pass for references only. -/
theorem advertised_list_accepted_iff (hkind : filter.kind ≠ .order)
    (hdescribe : filter.describe registry resource = .ok description)
    (hfamily : registry.resolve filter.family resource = .ok family)
    (hnames : ∀ name ∈ Keyed.keys (filter.describedProperties family), filter.Transports name)
    (hadvertised : listName property ∈ Keyed.keys description) :
    ∃ path, registry.path family property = .ok path ∧
      (property ≠ "" → path.target.isReference = false → filter.UsesList property) ∧
      (path.target.semantic ≠ .mixed → ∀ value text, ReadsAs text (listPair property value) →
        ∀ query,
          (filter.AddsTest registry resource (.ofQueryText text) query path ↔
            filter.UsesList property) ∧
          (¬ filter.UsesList property →
            query.apply registry filter (some (.ofQueryText text)) resource =
              (query.attach .always, none))) := by
  obtain ⟨strategy, path, hmem, hpath, hsupported, hreason⟩ :=
    (listName_mem_describe_iff hkind hdescribe hfamily
      fun name hname => (hnames name hname).1.1).1 hadvertised
  have hdescribed := Keyed.mem_keys_of_mem hmem
  have htransports := hnames property hdescribed
  refine ⟨path, hpath, fun hne hreference => ?_, fun hdefinite value text htext query => ?_⟩
  · refine usesList_of_advertised hne hmem (hreason.resolve_left ?_)
    rw [hreference]
    exact Bool.false_ne_true
  · have hhandles := handles_iff.2 ⟨hsupported, hdefinite⟩
    have hdropped : ¬ filter.UsesList property →
        query.apply registry filter (some (.ofQueryText text)) resource =
          (query.attach .always, none) := fun huses =>
      apply_of_not_usesList hkind hfamily htransports hdescribed hpath hhandles htext huses query
    refine ⟨⟨fun hadds => Classical.byContradiction fun huses => ?_, fun huses => ?_⟩, hdropped⟩
    · exact not_addsTest_of_attach_always (hdropped huses) hadds
    · exact addsTest_of_usesList hkind hfamily htransports hdescribed hpath hhandles htext huses
        query

/-- The attribute that a property of a resource leads to can be worked out. -/
theorem exists_path_semantic (property : String) {semantic : SemanticType}
    (h : ((registry.resolve filter.family resource).toOption.bind fun family =>
      (registry.path family property).toOption).map (·.target.semantic) = some semantic)
    (hfamily : registry.resolve filter.family resource = .ok family) :
    ∃ path, registry.path family property = .ok path ∧ path.target.semantic = semantic := by
  rw [hfamily] at h
  obtain ⟨path, hpath, hsemantic⟩ := Option.map_eq_some_iff.1 h
  exact ⟨path, Outcome.toOption_eq_some_iff.1 hpath, hsemantic⟩

/-- A list of names of the maker is advertised, and a search by it has its effect. -/
theorem maker_name_list_accepted :
    Wardrobe.style.kind ≠ .order ∧ ∃ description family path,
      Wardrobe.style.describe Wardrobe.families Wardrobe.shirtClass = .ok description ∧
      Wardrobe.families.resolve Wardrobe.style.family Wardrobe.shirtClass = .ok family ∧
      (∀ name ∈ Keyed.keys (Wardrobe.style.describedProperties family),
        Wardrobe.style.Transports name) ∧
      listName "maker.name" ∈ Keyed.keys description ∧
      Wardrobe.families.path family "maker.name" = .ok path ∧ path.target.semantic ≠ .mixed ∧
      ReadsAs "maker.name%5B%5D=Acme" (listPair "maker.name" "Acme") ∧
      ∀ query, Wardrobe.style.AddsTest Wardrobe.families Wardrobe.shirtClass
        (.ofQueryText "maker.name%5B%5D=Acme") query path := by
  obtain ⟨description, family, hdescribe, hfamily, descriptor, hget, -⟩ :=
    exists_description_advertises Wardrobe.style Wardrobe.families Wardrobe.shirtClass
      (listName "maker.name") (show _ = some SemanticType.string by decide +kernel) (by decide)
  obtain ⟨path, hpath, hsemantic⟩ := exists_path_semantic "maker.name"
    (show _ = some SemanticType.string by decide +kernel) hfamily
  have hnames : ∀ name ∈ Keyed.keys (Wardrobe.style.describedProperties family),
      Wardrobe.style.Transports name := by
    change ∀ name ∈ Keyed.keys Wardrobe.style.properties.entries, _
    decide
  have hadvertised := (Keyed.get?_isSome_iff _ _).1 (Option.isSome_of_eq_some hget)
  have hdefinite : path.target.semantic ≠ .mixed := by
    rw [hsemantic]
    decide
  have htext : ReadsAs "maker.name%5B%5D=Acme" (listPair "maker.name" "Acme") := by
    decide +kernel
  obtain ⟨path', hpath', -, hsent⟩ :=
    advertised_list_accepted_iff (by decide) hdescribe hfamily hnames hadvertised
  cases hpath.symm.trans hpath'
  exact ⟨by decide, description, family, path, hdescribe, hfamily, hnames, hadvertised, hpath,
    hdefinite, htext,
    fun query => (hsent hdefinite _ _ htext query).1.2 ⟨by decide, fun _ => rfl⟩⟩

/-- A list of makers is advertised by the search by a part of them, and dropped when it comes. -/
theorem maker_list_dropped :
    Wardrobe.makers.kind ≠ .order ∧ ∃ description family path,
      Wardrobe.makers.describe Wardrobe.families Wardrobe.shirtClass = .ok description ∧
      Wardrobe.families.resolve Wardrobe.makers.family Wardrobe.shirtClass = .ok family ∧
      (∀ name ∈ Keyed.keys (Wardrobe.makers.describedProperties family),
        Wardrobe.makers.Transports name) ∧
      listName "maker" ∈ Keyed.keys description ∧
      Wardrobe.families.path family "maker" = .ok path ∧ path.target.semantic ≠ .mixed ∧
      ReadsAs "maker%5B%5D=Acme" (listPair "maker" "Acme") ∧
      ∀ query, ¬ Wardrobe.makers.AddsTest Wardrobe.families Wardrobe.shirtClass
        (.ofQueryText "maker%5B%5D=Acme") query path := by
  obtain ⟨description, family, hdescribe, hfamily, descriptor, hget, -⟩ :=
    exists_description_advertises Wardrobe.makers Wardrobe.families Wardrobe.shirtClass
      (listName "maker") (show _ = some SemanticType.string by decide +kernel) (by decide)
  obtain ⟨path, hpath, hsemantic⟩ := exists_path_semantic "maker"
    (show _ = some SemanticType.entity by decide +kernel) hfamily
  have hnames : ∀ name ∈ Keyed.keys (Wardrobe.makers.describedProperties family),
      Wardrobe.makers.Transports name := by
    change ∀ name ∈ Keyed.keys Wardrobe.makers.properties.entries, _
    decide
  have hdescribed : "maker" ∈ Keyed.keys (Wardrobe.makers.describedProperties family) := by
    change "maker" ∈ Keyed.keys Wardrobe.makers.properties.entries
    decide
  have hadvertised := (Keyed.get?_isSome_iff _ _).1 (Option.isSome_of_eq_some hget)
  have hhandles : Wardrobe.makers.handles path.target.semantic = true := by
    rw [hsemantic]
    decide
  have htext : ReadsAs "maker%5B%5D=Acme" (listPair "maker" "Acme") := by
    decide +kernel
  have hunused : ¬ Wardrobe.makers.UsesList "maker" := fun huses => nomatch huses.2 rfl
  exact ⟨by decide, description, family, path, hdescribe, hfamily, hnames, hadvertised, hpath,
    (handles_iff.1 hhandles).2, htext,
    fun query => not_addsTest_of_attach_always (apply_of_not_usesList (by decide) hfamily
      (hnames _ hdescribed) hdescribed hpath hhandles htext hunused query)⟩

end Filter

end AttributeFilter
