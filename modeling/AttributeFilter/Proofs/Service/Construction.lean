import AttributeFilter.Proofs.Filter.Description
import AttributeFilter.Proofs.Filter.Failure
import AttributeFilter.Proofs.Keyed
import AttributeFilter.Proofs.Service.Runs

/-!
# Errors of making and of using a service

Search strategies are checked when a service is made, and this is all that can go wrong then. In the
use of a service it is the look-ups that fail. A description leaves out properties that are not
found, so its errors are never the client's.

## Main definitions

* `SearchStrategy.names`: the names of the strategies that there are.
* `FilterSettings.declaredStrategies`: the strategies that a search filter declares.
* `Settings.unknownStrategy?`: the first declared strategy that there is not.

## Main results

* `Service.create_eq`: how a service is made, or is not.
* `Service.error_of_apply`, `Service.error_of_describeFrom`: the errors of filters that are applied
  or described.
* `Service.errors_by_stage`: errors of strategies come up before there is a service only.
-/

namespace AttributeFilter

/-! ### Strategies -/

namespace SearchStrategy

def names : List String :=
  ["exact", "partial", "start", "end", "word_start"]

theorem ofName_of_mem {name : String} (h : name ∈ names) :
    ∃ strategy, ofName (some name) = .ok strategy := by
  simp only [names, List.mem_cons, List.not_mem_nil, or_false] at h
  rcases h with rfl | rfl | rfl | rfl | rfl
  exacts [⟨exact, rfl⟩, ⟨within, rfl⟩, ⟨atStart, rfl⟩, ⟨atEnd, rfl⟩, ⟨wordStart, rfl⟩]

theorem ofName_of_notMem {name : String} (h : name ∉ names) :
    ofName (some name) = .error (.invalidStrategy name) := by
  simp only [names, List.mem_cons, List.not_mem_nil, or_false, not_or] at h
  obtain ⟨hexact, hpartial, hstart, hend, hword⟩ := h
  rw [ofName, if_neg hexact, if_neg hpartial, if_neg hstart, if_neg hend, if_neg hword]

end SearchStrategy

/-- The strategy that is missing is the first one whose name there is not. -/
theorem FilterSpec.missingStrategy?_eq (strategies : List (String × Option String)) :
    missingStrategy? strategies =
      ((strategies.filterMap Prod.snd).find? (· ∉ SearchStrategy.names)).map
        Error.invalidStrategy := by
  induction strategies with
  | nil => rfl
  | cons entry rest ih =>
    obtain ⟨property, strategy⟩ := entry
    rw [missingStrategy?, List.filterMap_cons]
    cases strategy with
    | none => exact ih
    | some name =>
      by_cases hname : name ∈ SearchStrategy.names
      · obtain ⟨strategy, hstrategy⟩ := SearchStrategy.ofName_of_mem hname
        rw [hstrategy, List.find?_cons_of_neg (by simpa using hname)]
        exact ih
      · rw [SearchStrategy.ofName_of_notMem hname, List.find?_cons_of_pos (by simpa using hname)]
        rfl

/-! ### Settings -/

/-- The strategies that a search filter declares for its properties, in order. Of a property that is
given twice the last strategy counts. The empty text declares none, and filters of other kinds do
not search. -/
def FilterSettings.declaredStrategies (settings : FilterSettings) : List String :=
  match settings.kind, settings.properties with
  | .search, some (.withStrategies strategies) =>
    ((Keyed.ofList strategies).map Prod.snd).filter (· ≠ "")
  | _, _ => []

/-- The first strategy in the order of the settings that a search filter declares although there is
no such strategy. -/
def Settings.unknownStrategy? (settings : Settings) : Option String :=
  (settings.namedFilters.flatMap fun entry => entry.2.declaredStrategies).find?
    (· ∉ SearchStrategy.names)

namespace DeclaredProperties

theorem filterMap_entries_plain (properties : List String) :
    (plain properties).toPropertySet.entries.filterMap Prod.snd = [] := by
  have hpairs : properties.map (fun name => (name, (none : Option String))) =
      (properties.map fun name => (name, ())).map fun entry => (entry.1, none) := by
    rw [List.map_map]
    rfl
  rw [toPropertySet, PropertySet.ofList, PropertySet.entries, hpairs,
    Keyed.ofList_map fun _ : Unit => (none : Option String), List.filterMap_map]
  exact List.filterMap_eq_nil_iff.2 fun _ _ => rfl

theorem filterMap_entries_withStrategies (strategies : List (String × String)) :
    (withStrategies strategies).toPropertySet.entries.filterMap Prod.snd =
      ((Keyed.ofList strategies).map Prod.snd).filter (· ≠ "") := by
  rw [toPropertySet, PropertySet.ofList, PropertySet.entries, Keyed.ofList_map strategyOf,
    List.filterMap_map, List.filter_map, ← List.filterMap_eq_map, List.filterMap_filter]
  refine List.filterMap_congr fun entry _ => ?_
  by_cases h : entry.2 = "" <;> simp [strategyOf, h]

end DeclaredProperties

namespace FilterSettings

variable {settings : FilterSettings}

theorem declaredStrategies_of_search (hkind : settings.kind = .search) :
    settings.declaredStrategies = settings.spec.properties.entries.filterMap Prod.snd := by
  rw [declaredStrategies, hkind, spec]
  cases settings.properties with
  | none => rfl
  | some properties =>
    cases properties with
    | plain names => exact (DeclaredProperties.filterMap_entries_plain names).symm
    | withStrategies strategies =>
      exact (DeclaredProperties.filterMap_entries_withStrategies strategies).symm

theorem declaredStrategies_of_ne_search (hkind : settings.kind ≠ .search) :
    settings.declaredStrategies = [] := by
  rw [declaredStrategies]
  split
  · next hsearch _ => exact absurd hsearch hkind
  · rfl

/-- The filter of some settings lacks the first strategy that they declare although there is not. -/
theorem invalidStrategy?_spec (settings : FilterSettings) :
    settings.spec.invalidStrategy? =
      (settings.declaredStrategies.find? (· ∉ SearchStrategy.names)).map Error.invalidStrategy := by
  rw [FilterSpec.invalidStrategy?]
  split
  · next hkind => rw [FilterSpec.missingStrategy?_eq, declaredStrategies_of_search hkind]
  · next hkind => rw [declaredStrategies_of_ne_search hkind, List.find?_nil, Option.map_none]

end FilterSettings

/-! ### Making a service -/

theorem Filter.create_of_some {spec : FilterSpec} {error : Error}
    (h : spec.invalidStrategy? = some error) : create spec = .error error := by
  unfold create
  split <;> simp_all

theorem Filter.create_of_none {spec : FilterSpec} (h : spec.invalidStrategy? = none) :
    ∃ filter, create spec = .ok filter := by
  refine ⟨⟨spec, h⟩, ?_⟩
  unfold create
  split <;> simp_all

namespace Service

/-- Filters are made one after the other, up to the first one that lacks a strategy. -/
theorem createFilters_eq (entries : List (String × FilterSettings)) :
    match (entries.flatMap fun entry => entry.2.declaredStrategies).find?
      (· ∉ SearchStrategy.names) with
    | some name => createFilters entries = .error (.invalidStrategy name)
    | none => ∃ filters, createFilters entries = .ok filters := by
  induction entries with
  | nil => exact ⟨[], rfl⟩
  | cons entry rest ih =>
    obtain ⟨label, settings⟩ := entry
    have hspec := FilterSettings.invalidStrategy?_spec settings
    rw [List.flatMap_cons, List.find?_append]
    cases hfirst : settings.declaredStrategies.find? (· ∉ SearchStrategy.names) with
    | some name =>
      rw [hfirst] at hspec
      exact Outcome.bind_eq_error_iff.2 (.inl (Filter.create_of_some hspec))
    | none =>
      rw [hfirst] at hspec
      obtain ⟨filter, hfilter⟩ := Filter.create_of_none hspec
      rw [Option.none_or]
      split at ih
      · exact Outcome.bind_eq_error_iff.2
          (.inr ⟨filter, hfilter, Outcome.bind_eq_error_iff.2 (.inl ih)⟩)
      · obtain ⟨filters, hfilters⟩ := ih
        exact ⟨_, Outcome.bind_eq_ok_iff.2
          ⟨filter, hfilter, Outcome.bind_eq_ok_iff.2 ⟨filters, hfilters, rfl⟩⟩⟩

/-- A service is made unless a declared strategy is not known, and then the first one of these is
the error. -/
theorem create_eq (registry : Registry) (settings : Settings) :
    match settings.unknownStrategy? with
    | some name => create registry settings = .error (.invalidStrategy name)
    | none => ∃ service, create registry settings = .ok service := by
  have hfilters := createFilters_eq settings.namedFilters
  rw [Settings.unknownStrategy?]
  split at hfilters
  · exact Outcome.bind_eq_error_iff.2 (.inl hfilters)
  · obtain ⟨filters, hfilters⟩ := hfilters
    exact ⟨_, Outcome.bind_eq_ok_iff.2 ⟨filters, hfilters, rfl⟩⟩

/-! ### Using a service -/

variable {service : Service} {request : Option Request} {resource : String} {error : Error}

theorem getFilter_eq_error {name : String} (h : service.getFilter name = .error error) :
    error = .unknownFilter name := by
  rw [getFilter] at h
  split at h
  · cases h
  · exact (Except.error.inj h).symm

/-- A run of filters ends at a name without filter, or at an error of a look-up. -/
theorem error_of_apply {names : List String} {query : Query}
    (h : (service.apply request resource names query).2 = some error) :
    (∃ name, error = .unknownFilter name) ∨ error.IsLookup := by
  rw [error_apply] at h
  obtain ⟨name, -, hname⟩ := List.exists_of_findSome?_eq_some h
  rw [errorOf?] at hname
  split at hname
  · exact .inr (Filter.isLookup_of_plan hname)
  · next other hmissing =>
    cases hname
    exact .inl ⟨name, getFilter_eq_error hmissing⟩

/-- A description of filters ends at a name without filter, or at an error of a look-up that is not
the client's. -/
theorem error_of_describeFrom {names : List String} {description : Description}
    (h : service.describeFrom resource description names = .error error) :
    (∃ name, error = .unknownFilter name) ∨ error.IsLookup ∧ error.side = .server := by
  induction names generalizing description with
  | nil => cases h
  | cons name rest ih =>
    rcases Outcome.bind_eq_error_iff.1 h with h | ⟨filter, -, h⟩
    · exact .inl ⟨name, getFilter_eq_error h⟩
    rcases Outcome.bind_eq_error_iff.1 h with h | ⟨more, -, h⟩
    · exact .inr (Filter.describe_eq_error h)
    · exact ih h

/-- **Errors by stage.** A service is not made exactly if a search filter of the settings declares a
strategy that there is not, and the error is the first such strategy. Filters of a service that was
made never end at an error of a strategy when they are applied, and when they are described, never
at an attribute that is not known; so errors of descriptions are never the client's. -/
theorem errors_by_stage (registry : Registry) (settings : Settings) :
    (∀ error, create registry settings = .error error ↔
      ∃ name, settings.unknownStrategy? = some name ∧ error = .invalidStrategy name) ∧
    ∀ service, create registry settings = .ok service →
      (∀ request resource names query name,
        (service.apply request resource names query).2 ≠ some (.invalidStrategy name)) ∧
      ∀ resource names error, service.describe resource names = .error error →
        (∀ family code, error ≠ .unknownAttribute family code) ∧ error.side = .server := by
  refine ⟨fun error => ?_, fun service _ => ⟨?_, ?_⟩⟩
  · have hcreate := create_eq registry settings
    split at hcreate
    · next name hname => simp [hname, hcreate, eq_comm]
    · next hnone =>
      obtain ⟨service, hservice⟩ := hcreate
      simp [hnone, hservice]
  · intro request resource names query name h
    rcases error_of_apply h with ⟨other, hother⟩ | hlookup
    · cases hother
    · exact hlookup
  · intro resource names error h
    have hside : error.side = .server := by
      rcases error_of_describeFrom h with ⟨name, rfl⟩ | ⟨-, hside⟩
      · rfl
      · exact hside
    refine ⟨fun family code hunknown => ?_, hside⟩
    rw [hunknown] at hside
    cases hside

/-- Settings with a misspelt strategy behind one that there is. -/
def misspelt : Settings where
  filters := some [("texts", {
    kind := .search
    properties := some (.withStrategies [("name", "partial"), ("sku", "prefix")]) })]

/-- The misspelt strategy is found when the service is to be made; without it there is a service,
and describing its filters for a resource of no family is no error of the client. -/
theorem errors_by_stage_catalog :
    create Catalog.families misspelt = .error (.invalidStrategy "prefix") ∧
    create Catalog.families Catalog.settings = .ok Catalog.service ∧
    Catalog.service.describe "App\\Entity\\Order" ["texts"] =
      .error (.unresolvedFamily "App\\Entity\\Order") ∧
    (Error.unresolvedFamily "App\\Entity\\Order").side = .server ∧
    ∀ request resource names query name,
      (Catalog.service.apply request resource names query).2 ≠ some (.invalidStrategy name) := by
  have hcreate : create Catalog.families Catalog.settings = .ok Catalog.service := rfl
  have hdescribe : Catalog.service.describe "App\\Entity\\Order" ["texts"] =
      .error (.unresolvedFamily "App\\Entity\\Order") := rfl
  refine ⟨((errors_by_stage _ _).1 _).2 ⟨"prefix", by decide, rfl⟩, hcreate, hdescribe, ?_⟩
  obtain ⟨happly, hdescribed⟩ := (errors_by_stage _ _).2 _ hcreate
  exact ⟨(hdescribed _ _ _ hdescribe).2, happly⟩

end Service

end AttributeFilter
