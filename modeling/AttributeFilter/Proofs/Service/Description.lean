import AttributeFilter.Proofs.Filter.Description
import AttributeFilter.Proofs.Keyed.Merge
import AttributeFilter.Service

/-!
# Merged descriptions

The filters of a resource are described together. The first name without a filter, or with a filter
that cannot be described, is the error of the whole. Otherwise the descriptions are merged: the first
filter that describes a parameter decides its place, and the last one what is told of it. No filter
is the better for being named again: whatever was named last may be named once more.

## Main definitions

* `Service.Told`: what a name has to tell.
* `Service.FailsFirst`: the error of the first name that has nothing to tell.

## Main results

* `Service.describe_eq`: a description of names, as the descriptions of their filters.
* `Service.describe_append_again`: naming the last names again changes nothing.
* `Service.describe_merged`: the error of a description of names, or what it is merged into.
-/

namespace AttributeFilter

theorem Filter.nodup_keys_describe {filter : Filter} {registry : Registry} {resource : String}
    {description : Description} (h : filter.describe registry resource = .ok description) :
    (Keyed.keys description).Nodup := by
  obtain ⟨family, -, hfrom⟩ := Outcome.bind_eq_ok_iff.1 h
  have hnone : (Keyed.keys ([] : Description)).Nodup := List.nodup_nil
  exact nodup_keys_describeFrom hnone hfrom

namespace Service

/-- What a name has to tell of a resource: the description of its filter. A name without filter is
an error. -/
inductive Told (service : Service) (resource name : String) : Except Error Description → Prop
  | unknown (missing : name ∉ Keyed.keys service.filters) :
      Told service resource name (.error (.unknownFilter name))
  | known {filter : Filter} (found : Keyed.get? name service.filters = some filter) :
      Told service resource name (filter.describe service.registry resource)

/-- The error is that of the first name that has no description to tell. -/
def FailsFirst (service : Service) (resource : String) (names : List String) (error : Error) :
    Prop :=
  ∃ before name after, names = before ++ name :: after ∧ service.Told resource name (.error error) ∧
    ∀ earlier ∈ before, ∃ description, service.Told resource earlier (.ok description)

/-- The description of the filter under a name. -/
def describeNamed (service : Service) (resource name : String) : Except Error Description := do
  let filter ← service.getFilter name
  filter.describe service.registry resource

variable {service : Service} {resource name : String} {names : List String}
  {outcome : Except Error Description} {description merged : Description}

/-! ### One name -/

theorem told_iff : service.Told resource name outcome ↔
    service.describeNamed resource name = outcome := by
  rw [describeNamed, getFilter]
  cases hfound : Keyed.get? name service.filters with
  | none =>
    have hmissing := Keyed.get?_eq_none_iff.1 hfound
    constructor
    · rintro (- | found)
      · rfl
      · rw [hfound] at found
        cases found
    · rintro rfl
      exact .unknown hmissing
  | some filter =>
    have hfilter : service.Told resource name (filter.describe service.registry resource) :=
      .known hfound
    constructor
    · rintro (missing | found)
      · rw [Keyed.get?_eq_none_iff.2 missing] at hfound
        cases hfound
      · rw [hfound] at found
        cases found
        rfl
    · rintro rfl
      exact hfilter

theorem nodup_keys_describeNamed (h : service.describeNamed resource name = .ok description) :
    (Keyed.keys description).Nodup := by
  obtain ⟨filter, -, hdescribe⟩ := Outcome.bind_eq_ok_iff.1 h
  exact Filter.nodup_keys_describe hdescribe

/-! ### Many names -/

/-- Adding the descriptions of filters one after the other adds all their entries. -/
theorem describeFrom_eq (names : List String) (description : Description) :
    service.describeFrom resource description names =
      (names.mapM (service.describeNamed resource)).map fun parts =>
        Keyed.extend description parts.flatten := by
  induction names generalizing description with
  | nil => rfl
  | cons name rest ih =>
    have hfirst : service.describeFrom resource description (name :: rest) =
        service.describeNamed resource name >>= fun more =>
          service.describeFrom resource (Keyed.extend description more) rest := by
      rw [describeFrom, describeNamed, bind_assoc]
    rw [hfirst, List.mapM_cons]
    cases service.describeNamed resource name with
    | error error => rfl
    | ok more =>
      change service.describeFrom resource (Keyed.extend description more) rest = _
      rw [ih]
      cases rest.mapM (service.describeNamed resource) with
      | error error => rfl
      | ok parts => exact congrArg Except.ok (Keyed.extend_append description more _).symm

theorem describe_eq (names : List String) : service.describe resource names =
    (names.mapM (service.describeNamed resource)).map fun parts => Keyed.ofList parts.flatten :=
  describeFrom_eq names []

/-- Naming the last names again changes nothing. -/
theorem describe_append_again (before last : List String) :
    service.describe resource (before ++ last ++ last) =
      service.describe resource (before ++ last) := by
  rw [describe_eq, describe_eq, List.mapM_append, List.mapM_append]
  cases before.mapM (service.describeNamed resource) with
  | error error => rfl
  | ok first =>
    cases last.mapM (service.describeNamed resource) with
    | error error => rfl
    | ok parts =>
      change Except.ok (Keyed.ofList (first ++ parts ++ parts).flatten) =
        Except.ok (Keyed.ofList (first ++ parts).flatten)
      have hread := Keyed.nodup_keys_ofList first.flatten
      rw [List.flatten_append, List.flatten_append, Keyed.ofList, Keyed.ofList,
        Keyed.extend_append, Keyed.extend_append, ← Keyed.ofList,
        Keyed.extend_extend_self hread]

/-- **Merged descriptions.** A description of names fails with the error of the first name that has
no description to tell, and otherwise it is what the descriptions of their filters are merged into.
All names can be given twice, and the last name can be given once more. -/
theorem describe_merged (service : Service) (resource : String) (names : List String) :
    (∀ error, service.describe resource names = .error error ↔
      service.FailsFirst resource names error) ∧
    (∀ merged, service.describe resource names = .ok merged ↔
      ∃ parts, List.Forall₂ (fun name part => service.Told resource name (.ok part)) names parts ∧
        Keyed.Merges parts merged) ∧
    service.describe resource (names ++ names) = service.describe resource names ∧
    ∀ name, service.describe resource (names ++ [name, name]) =
      service.describe resource (names ++ [name]) := by
  refine ⟨fun error => ?_, fun merged => ?_, ?_, fun name => ?_⟩
  · simp only [FailsFirst, told_iff]
    rw [describe_eq, ← Outcome.mapM_eq_error_iff]
    cases names.mapM (service.describeNamed resource) <;> simp [Except.map]
  · simp only [told_iff]
    rw [describe_eq, Outcome.map_eq_ok_iff]
    simp only [Outcome.mapM_eq_ok_iff]
    refine exists_congr fun parts => and_congr_right fun hparts => ?_
    have hdistinct : ∀ part ∈ parts, (Keyed.keys part).Nodup :=
      ((List.forall₂_and_left parts names).1 (hparts.flip.imp fun part name hname =>
        ⟨nodup_keys_describeNamed hname, hname⟩)).1
    rw [Keyed.merges_iff hdistinct, eq_comm]
  · exact describe_append_again [] names
  · rw [← describe_append_again names [name], List.append_assoc, List.singleton_append]

end Service

end AttributeFilter
