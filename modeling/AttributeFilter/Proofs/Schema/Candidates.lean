import AttributeFilter.Proofs.Schema.Traversal
import AttributeFilter.Proofs.Text.Trim

/-!
# The family of a resource

The candidates for a resource are the families that are kept in data of its type. A filter that is
pinned to one of them has it for its family, and a filter that is not pinned has the only candidate.
Where there are several, it is told to be pinned to one of them, and whichever it takes, it has a
family then. Separators in front of a type name do not count for any of this.

## Main definitions

* `BareName`: what is left of a type name without the separators in front of it.
* `SameType`: names of the same type.
* `Registry.candidates`: the families that are kept in data of a type.

## Main results

* `sameType_iff`: the same is left of names of the same type.
* `Registry.resolve_some_eq_ok_iff`: to which families a filter can be pinned.
* `Registry.resolve_append`: separators in front of a resource do not count.
* `Registry.resolve_candidates`: the family of a resource, pinned or not.
-/

namespace AttributeFilter

/-- The characters that do not count in front of a type name. -/
def IsTypeSeparator (c : Char) : Prop :=
  c = '\\' ∨ c = ':'

/-- The bare name is left of the type name without the run of separators in front of it. -/
def BareName (name bare : String) : Prop :=
  ∃ run, name.toList = run ++ bare.toList ∧ (∀ c ∈ run, IsTypeSeparator c) ∧
    ∀ c ∈ bare.toList.head?, ¬ IsTypeSeparator c

/-- Two names are names of the same type: the same is left of them. -/
def SameType (first second : String) : Prop :=
  ∃ bare, BareName first bare ∧ BareName second bare

/-! ### Type names -/

theorem bareTypeName_eq_iff {name bare : String} :
    bareTypeName name = bare ↔ BareName name bare := by
  rw [bareTypeName, ← String.toList_inj, String.toList_ofList, Text.trimStart_eq_iff]
  simp [BareName, IsTypeSeparator]

/-- The same is left of names of the same type. -/
theorem sameType_iff {first second : String} :
    SameType first second ↔ bareTypeName first = bareTypeName second := by
  simp only [SameType, ← bareTypeName_eq_iff]
  constructor
  · rintro ⟨bare, hfirst, hsecond⟩
    rw [hfirst, hsecond]
  · intro h
    exact ⟨_, rfl, h.symm⟩

instance (first second : String) : Decidable (SameType first second) :=
  decidable_of_iff _ sameType_iff.symm

/-- Separators in front of a type name do not count. -/
theorem bareTypeName_append {run : String} (hrun : ∀ c ∈ run.toList, IsTypeSeparator c)
    (name : String) : bareTypeName (run ++ name) = bareTypeName name := by
  obtain ⟨others, hname, hothers, hbare⟩ : BareName name (bareTypeName name) :=
    bareTypeName_eq_iff.1 rfl
  refine bareTypeName_eq_iff.2 ⟨run.toList ++ others, ?_, ?_, hbare⟩
  · rw [String.toList_append, hname, List.append_assoc]
  · rw [List.forall_mem_append]
    exact ⟨hrun, hothers⟩

namespace Registry

variable {registry : Registry} {resource : String} {family : Family}

/-- The candidates for a resource, in the order of their declaration: the families that are kept in
data of its type. -/
def candidates (registry : Registry) (resource : String) : List Family :=
  registry.families.filter (SameType ·.dataClass resource)

/-! ### Candidates -/

theorem backs_iff : backs family resource = true ↔ SameType family.dataClass resource := by
  rw [backs, beq_iff_eq, sameType_iff]

theorem backing_eq_candidates (registry : Registry) (resource : String) :
    registry.backing resource = registry.candidates resource := by
  refine List.filter_congr fun family _ => ?_
  rw [Bool.eq_iff_iff, backs_iff, decide_eq_true_iff]

theorem mem_candidates_iff : family ∈ registry.candidates resource ↔
    family ∈ registry.families ∧ SameType family.dataClass resource := by
  rw [candidates, List.mem_filter, decide_eq_true_iff]

/-- A filter can be pinned to the candidates for a resource, each under its own code. -/
theorem resolve_some_eq_ok_iff {code : String} :
    registry.resolve (some code) resource = .ok family ↔
      family ∈ registry.candidates resource ∧ family.code = code := by
  rw [resolve, Outcome.bind_eq_ok_iff, mem_candidates_iff]
  constructor
  · rintro ⟨found, hfound, hbacks⟩
    split at hbacks
    · next hsame =>
      cases hbacks
      have hknown := getFamily_eq_ok_iff.1 hfound
      exact ⟨⟨mem_of_family?_eq_some hknown, backs_iff.1 hsame⟩, code_of_family?_eq_some hknown⟩
    · cases hbacks
  · rintro ⟨⟨hmem, hsame⟩, rfl⟩
    exact ⟨family, getFamily_eq_ok_iff.2 (registry.family?_code hmem), if_pos (backs_iff.2 hsame)⟩

/-- Separators in front of a resource do not count. -/
theorem candidates_append {run : String} (hrun : ∀ c ∈ run.toList, IsTypeSeparator c)
    (resource : String) : registry.candidates (run ++ resource) = registry.candidates resource := by
  refine List.filter_congr fun family _ => ?_
  rw [decide_eq_decide, sameType_iff, sameType_iff, bareTypeName_append hrun]

theorem resolve_append {run : String} (hrun : ∀ c ∈ run.toList, IsTypeSeparator c)
    {pinned : Option String} :
    registry.resolve pinned (run ++ resource) = .ok family ↔
      registry.resolve pinned resource = .ok family := by
  cases pinned with
  | some code => rw [resolve_some_eq_ok_iff, resolve_some_eq_ok_iff, candidates_append hrun]
  | none =>
    rw [resolve, resolve, governing_eq_ok_iff, governing_eq_ok_iff, backing_eq_candidates,
      backing_eq_candidates, candidates_append hrun]

/-! ### The family of a resource -/

/-- **The family of a resource.** A filter can be pinned to each of the candidates and to no other
family. If it is not pinned, it has the only candidate. It is an error that there is none, and an
error that there are several: then it is told the codes of all of them in the order of their
declaration, and can be pinned to each. Separators in front of the resource do not count. -/
theorem resolve_candidates (registry : Registry) (resource : String) :
    (∀ code family, registry.resolve (some code) resource = .ok family ↔
      family ∈ registry.candidates resource ∧ family.code = code) ∧
    (∀ family, registry.resolve none resource = .ok family ↔
      registry.candidates resource = [family]) ∧
    (registry.candidates resource = [] →
      registry.resolve none resource = .error (.unresolvedFamily resource)) ∧
    (2 ≤ (registry.candidates resource).length →
      registry.resolve none resource = .error (.ambiguousFamily resource
        ((registry.candidates resource).map Family.code)) ∧
      ∀ code ∈ (registry.candidates resource).map Family.code,
        ∃ family, registry.resolve (some code) resource = .ok family) ∧
    ∀ run : String, (∀ c ∈ run.toList, IsTypeSeparator c) → ∀ pinned family,
      registry.resolve pinned (run ++ resource) = .ok family ↔
        registry.resolve pinned resource = .ok family := by
  refine ⟨fun code family => resolve_some_eq_ok_iff, fun family => ?_, fun hnone => ?_,
    fun hseveral => ⟨?_, fun code hcode => ?_⟩, fun run hrun pinned family => resolve_append hrun⟩
  · rw [← backing_eq_candidates]
    exact governing_eq_ok_iff
  · rw [resolve, governing, backing_eq_candidates, hnone]
  · rw [resolve, governing, backing_eq_candidates]
    rcases hcandidates : registry.candidates resource with _ | ⟨first, _ | ⟨second, others⟩⟩
    · simp [hcandidates] at hseveral
    · simp [hcandidates] at hseveral
    · rfl
  · obtain ⟨family, hfamily, rfl⟩ := List.mem_map.1 hcode
    exact ⟨family, resolve_some_eq_ok_iff.2 ⟨hfamily, rfl⟩⟩

/-- Shirts and shoes that are kept in data of one type, written with and without separators. -/
def sharedData : Registry :=
  match build [("Shirt", { dataClass := "App\\Entity\\Data" }),
    ("Brand", { dataClass := "App\\Entity\\Brand" }),
    ("Shoe", { dataClass := "\\App\\Entity\\Data" })] with
  | .ok registry => registry
  | .error _ => { families := [], codes_nodup := List.nodup_nil }

/-- For their data there are two candidates; brands are told apart with separators in front. -/
theorem resolve_candidates_sharedData :
    2 ≤ (sharedData.candidates "App\\Entity\\Data").length ∧
    sharedData.resolve none "App\\Entity\\Data" =
      .error (.ambiguousFamily "App\\Entity\\Data" ["Shirt", "Shoe"]) ∧
    (∃ family, sharedData.resolve (some "Shoe") "App\\Entity\\Data" = .ok family) ∧
    sharedData.candidates "App\\Entity\\Order" = [] ∧
    sharedData.resolve none "App\\Entity\\Order" =
      .error (.unresolvedFamily "App\\Entity\\Order") ∧
    (∀ c ∈ "::\\".toList, IsTypeSeparator c) ∧
    ∀ family, sharedData.resolve none "::\\App\\Entity\\Brand" = .ok family ↔
      sharedData.resolve none "App\\Entity\\Brand" = .ok family := by
  have hseveral : 2 ≤ (sharedData.candidates "App\\Entity\\Data").length := by decide +kernel
  have hcodes : (sharedData.candidates "App\\Entity\\Data").map Family.code = ["Shirt", "Shoe"] := by
    decide +kernel
  have hnone : sharedData.candidates "App\\Entity\\Order" = [] := by
    rw [← List.length_eq_zero_iff]
    decide +kernel
  have hrun : ∀ c ∈ "::\\".toList, IsTypeSeparator c := by
    simp [IsTypeSeparator]
  obtain ⟨-, -, -, hambiguous, -⟩ := resolve_candidates sharedData "App\\Entity\\Data"
  obtain ⟨-, -, hunresolved, -, -⟩ := resolve_candidates sharedData "App\\Entity\\Order"
  obtain ⟨-, -, -, -, hseparated⟩ := resolve_candidates sharedData "App\\Entity\\Brand"
  rw [hcodes] at hambiguous
  exact ⟨hseveral, (hambiguous hseveral).1, (hambiguous hseveral).2 "Shoe" (by decide), hnone,
    hunresolved hnone, hrun, hseparated "::\\" hrun none⟩

end Registry

end AttributeFilter
