import AttributeFilter.Filter.Plan
import AttributeFilter.Proofs.Outcome

/-!
# What a plan consists of

A plan that concludes has looked at every parameter, and its steps are the steps of the parameters
that have one. What a step amounts to is said once here: the property is handled, its attribute
is found in the family of the resource, and values of its type are handled.

## Main results

* `Filter.extract_parameters`: the parameters of a request that is not read from a query text.
* `Filter.effect_isOk`: working out an effect never fails.
* `Filter.step?_eq_some_iff`, `Filter.step?_eq_error_iff`: when a parameter has a step, and which,
  and when it is looked at with an error.
* `Filter.planFor_singleton`: the plan for one parameter.
* `Filter.mem_steps_planFor`: every step of a plan is that of a parameter.
* `Filter.step?_of_concluded`, `Filter.mem_steps_planFor_of_concluded`: a plan that concludes has
  looked at every parameter and has its step.
* `Filter.concluded_of_error?_eq_none`: a plan for parameters concludes or fails.
* `Filter.exists_failing_of_planFor`: where a plan fails, and the steps that it has then.
* `Filter.error?_planFor_eq_none_iff`: when a plan ends without error.
* `Filter.orders_planFor`: only order filters order.
-/

namespace AttributeFilter.Filter

variable {filter : Filter} {registry : Registry} {resource property : String} {value : Parameter}

/-- Given parameters are looked at as they are: there is no query text to read again. -/
theorem extract_parameters (filter : Filter) {parameters : Parameters}
    (distinct : (Keyed.keys parameters).Nodup) :
    filter.extract (.parameters parameters distinct) = parameters := by
  rw [extract]
  split <;> rfl

/-! ### One parameter -/

/-- Working out an effect never fails: search strategies were checked when the filter was made. -/
theorem effect_isOk (filter : Filter) (property : String) (value : Parameter) :
    ∃ effect, filter.effect property value = .ok effect := by
  by_cases hk : filter.kind = .search
  · obtain ⟨strategy, hs⟩ := searchStrategy_isOk hk property
    cases value <;> simp [effect, hk, hs, Except.map]
  · cases value <;> cases h : filter.kind <;> simp_all [effect]

/-- A parameter has a step if its property is handled, the property leads to an attribute from the
family of the resource, and the filter handles values of that attribute. -/
theorem step?_eq_some_iff {step : Step} :
    filter.step? registry resource property value = .ok (some step) ↔
      filter.properties.contains property = true ∧
        (∃ family, registry.resolve filter.family resource = .ok family ∧
          registry.path family property = .ok step.path) ∧
        filter.handles step.path.target.semantic = true ∧
        filter.effect property value = .ok step.effect := by
  by_cases hc : filter.properties.contains property = true
  · rw [step?, if_pos hc, Outcome.bind_eq_ok_iff]
    constructor
    · rintro ⟨family, hfamily, hrest⟩
      obtain ⟨path, hpath, hstep⟩ := Outcome.bind_eq_ok_iff.1 hrest
      by_cases hh : filter.handles path.target.semantic = true
      · rw [if_pos hh] at hstep
        obtain ⟨effect, heffect, hpure⟩ := Outcome.bind_eq_ok_iff.1 hstep
        cases hpure
        exact ⟨hc, ⟨family, hfamily, hpath⟩, hh, heffect⟩
      · rw [if_neg hh] at hstep
        cases hstep
    · rintro ⟨_, ⟨family, hfamily, hpath⟩, hh, heffect⟩
      refine ⟨family, hfamily, Outcome.bind_eq_ok_iff.2 ⟨step.path, hpath, ?_⟩⟩
      rw [if_pos hh, heffect]
      rfl
  · rw [step?, if_neg hc]
    constructor
    · intro h
      cases h
    · intro h
      exact absurd h.1 hc

/-- A parameter is looked at with an error if its property is handled, and there is no family for
the resource or no way from there to an attribute. -/
theorem step?_eq_error_iff {error : Error} :
    filter.step? registry resource property value = .error error ↔
      filter.properties.contains property = true ∧
        (registry.resolve filter.family resource = .error error ∨
          ∃ family, registry.resolve filter.family resource = .ok family ∧
            registry.path family property = .error error) := by
  by_cases hc : filter.properties.contains property = true
  · rw [step?, if_pos hc, Outcome.bind_eq_error_iff]
    simp only [hc, true_and]
    refine or_congr_right (exists_congr fun family => and_congr_right fun _ => ?_)
    rw [Outcome.bind_eq_error_iff, or_iff_left]
    rintro ⟨path, -, hrest⟩
    obtain ⟨effect, heffect⟩ := effect_isOk filter property value
    rw [heffect] at hrest
    split at hrest <;> cases hrest
  · rw [step?, if_neg hc]
    constructor
    · intro h
      cases h
    · intro h
      exact absurd h.1 hc

/-- A parameter that is looked at without error and has a handled property leads to an
attribute. -/
theorem path_of_step?_eq_ok {step? : Option Step}
    (h : filter.step? registry resource property value = .ok step?)
    (hc : filter.properties.contains property = true) :
    ∃ family path, registry.resolve filter.family resource = .ok family ∧
      registry.path family property = .ok path := by
  rw [Filter.step?, if_pos hc, Outcome.bind_eq_ok_iff] at h
  obtain ⟨family, hfamily, h⟩ := h
  rw [Outcome.bind_eq_ok_iff] at h
  obtain ⟨path, hpath, _⟩ := h
  exact ⟨family, path, hfamily, hpath⟩

/-! ### All parameters -/

theorem planFor_cons (parameters : Parameters) :
    filter.planFor registry resource ((property, value) :: parameters) =
      match filter.step? registry resource property value with
      | .error error => { steps := [], ending := .failed error }
      | .ok none => filter.planFor registry resource parameters
      | .ok (some step) => (filter.planFor registry resource parameters).cons step :=
  rfl

/-- The plan for one parameter fails if that is looked at with an error. Otherwise it has the step of
the parameter, if there is one. -/
theorem planFor_singleton :
    filter.planFor registry resource [(property, value)] =
      match filter.step? registry resource property value with
      | .error error => { steps := [], ending := .failed error }
      | .ok step? => { steps := step?.toList, ending := .concluded } := by
  rw [planFor_cons]
  cases filter.step? registry resource property value with
  | error error => rfl
  | ok step? => cases step? <;> rfl

/-- Every step of a plan, also of one that fails, is that of a parameter. -/
theorem mem_steps_planFor {step : Step} {parameters : Parameters}
    (h : step ∈ (filter.planFor registry resource parameters).steps) :
    ∃ entry ∈ parameters, filter.step? registry resource entry.1 entry.2 = .ok (some step) := by
  induction parameters with
  | nil => simp [planFor] at h
  | cons entry rest ih =>
    rw [planFor_cons] at h
    split at h
    · simp at h
    · obtain ⟨later, hmem, hstep⟩ := ih h
      exact ⟨later, List.mem_cons_of_mem _ hmem, hstep⟩
    · next first hfirst =>
      rcases List.mem_cons.1 h with rfl | h
      · exact ⟨entry, List.mem_cons_self, hfirst⟩
      · obtain ⟨later, hmem, hstep⟩ := ih h
        exact ⟨later, List.mem_cons_of_mem _ hmem, hstep⟩

/-- A plan that concludes has looked at every parameter without error. -/
theorem step?_of_concluded {parameters : Parameters}
    (h : (filter.planFor registry resource parameters).ending = .concluded)
    {entry : String × Parameter} (hmem : entry ∈ parameters) :
    ∃ step?, filter.step? registry resource entry.1 entry.2 = .ok step? := by
  induction parameters with
  | nil => simp at hmem
  | cons first rest ih =>
    rw [planFor_cons] at h
    split at h
    · cases h
    · next hfirst =>
      rcases List.mem_cons.1 hmem with rfl | hmem
      · exact ⟨none, hfirst⟩
      · exact ih h hmem
    · next step hfirst =>
      rcases List.mem_cons.1 hmem with rfl | hmem
      · exact ⟨some step, hfirst⟩
      · exact ih h hmem

theorem mem_steps_planFor_of_concluded {step : Step} {parameters : Parameters}
    (h : (filter.planFor registry resource parameters).ending = .concluded)
    {entry : String × Parameter} (hmem : entry ∈ parameters)
    (hstep : filter.step? registry resource entry.1 entry.2 = .ok (some step)) :
    step ∈ (filter.planFor registry resource parameters).steps := by
  induction parameters with
  | nil => simp at hmem
  | cons first rest ih =>
    rw [planFor_cons] at h ⊢
    split at h
    · cases h
    · next hfirst =>
      rcases List.mem_cons.1 hmem with rfl | hmem
      · rw [hfirst] at hstep
        cases hstep
      · exact ih h hmem
    · next other hfirst =>
      rcases List.mem_cons.1 hmem with rfl | hmem
      · rw [hfirst] at hstep
        cases hstep
        exact List.mem_cons_self
      · exact List.mem_cons_of_mem _ (ih h hmem)

theorem ending_planFor_ne_idle (parameters : Parameters) :
    (filter.planFor registry resource parameters).ending ≠ .idle := by
  induction parameters with
  | nil => simp [planFor]
  | cons entry rest ih =>
    rw [planFor_cons]
    split
    · simp
    · exact ih
    · exact ih

theorem concluded_of_error?_eq_none {parameters : Parameters}
    (h : (filter.planFor registry resource parameters).error? = none) :
    (filter.planFor registry resource parameters).ending = .concluded := by
  rw [Plan.error?] at h
  cases he : (filter.planFor registry resource parameters).ending with
  | idle => exact absurd he (ending_planFor_ne_idle parameters)
  | concluded => rfl
  | failed error => simp [he] at h

/-- A plan fails at the first parameter that is looked at with an error, and has the steps of those
before it. -/
theorem exists_failing_of_planFor {parameters : Parameters} {error : Error}
    (h : (filter.planFor registry resource parameters).error? = some error) :
    ∃ before property value after, parameters = before ++ (property, value) :: after ∧
      (filter.planFor registry resource before).ending = .concluded ∧
      filter.step? registry resource property value = .error error ∧
      (filter.planFor registry resource parameters).steps =
        (filter.planFor registry resource before).steps := by
  induction parameters with
  | nil => cases h
  | cons entry rest ih =>
    obtain ⟨property, value⟩ := entry
    rw [planFor_cons] at h ⊢
    cases hstep : filter.step? registry resource property value with
    | error other =>
      rw [hstep] at h
      cases h
      exact ⟨[], property, value, rest, rfl, rfl, hstep, rfl⟩
    | ok step? =>
      -- the entry is looked at without error, so the plan fails further on
      rw [hstep] at h
      have hrest : (filter.planFor registry resource rest).error? = some error := by
        cases step? <;> exact h
      obtain ⟨before, failing, given, after, rfl, hended, hfails, hsteps⟩ := ih hrest
      refine ⟨(property, value) :: before, failing, given, after, rfl, ?_, hfails, ?_⟩
      · rw [planFor_cons, hstep]
        cases step? <;> exact hended
      · rw [planFor_cons, hstep]
        cases step? with
        | none => exact hsteps
        | some step => exact congrArg (step :: ·) hsteps

/-- A plan ends without error if every parameter is looked at without one. -/
theorem error?_planFor_eq_none_iff {parameters : Parameters} :
    (filter.planFor registry resource parameters).error? = none ↔
      ∀ entry ∈ parameters, ∃ step?, filter.step? registry resource entry.1 entry.2 = .ok step? := by
  constructor
  · exact fun h entry hentry => step?_of_concluded (concluded_of_error?_eq_none h) hentry
  · intro h
    refine Option.eq_none_iff_forall_ne_some.2 fun error herror => ?_
    obtain ⟨before, property, value, after, rfl, -, hfails, -⟩ := exists_failing_of_planFor herror
    obtain ⟨step?, hstep⟩ := h (property, value) (by simp)
    cases hfails.symm.trans hstep

/-! ### Order clauses -/

theorem ofSearch_ne_order (strategy : SearchStrategy) (value : Parameter) (direction : Direction) :
    Effect.ofSearch strategy value ≠ .order direction := by
  cases value with
  | scalar text => simp [Effect.ofSearch]
  | list items | map entries =>
    simp only [Effect.ofSearch]
    split <;> simp

theorem effect_ne_order (hkind : filter.kind ≠ .order) {direction : Direction} :
    filter.effect property value ≠ .ok (.order direction) := by
  cases value <;> cases hk : filter.kind <;>
    simp_all [effect, Effect.ofTruth, Outcome.map_eq_ok_iff, ofSearch_ne_order]

/-- Only order filters order. -/
theorem orders_planFor (hkind : filter.kind ≠ .order) (parameters : Parameters) :
    (filter.planFor registry resource parameters).orders = [] := by
  rw [Plan.orders, List.filterMap_eq_nil_iff]
  intro step hstep
  obtain ⟨entry, _, hentry⟩ := mem_steps_planFor hstep
  have heffect := (step?_eq_some_iff.1 hentry).2.2.2
  rw [Step.order?]
  split
  · next direction hd =>
    rw [hd] at heffect
    exact absurd heffect (effect_ne_order hkind)
  · rfl

end AttributeFilter.Filter
