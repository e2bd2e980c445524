import AttributeFilter.Proofs.Outcome
import AttributeFilter.Schema.Path

/-!
# Traversing families

A dotted name crosses from family to family. A crossing is possible at an attribute that refers to
data of exactly one family, if that family is registered; the path of a property is a way of such
crossings, and the attribute it leads to is declared by the family at its end.

## Main definitions

* `Registry.Traverses`: a way from one family to another across attributes.

## Main results

* `Registry.targetOf_eq_ok_iff`: where an attribute can be crossed, and to which family.
* `Registry.follow_eq_ok_iff`: the ways along which segments lead to an attribute.
* `Registry.resolve_eq_governing`: a pinned family is the one that governs the resource, if only
  one family is kept in data of its type.
-/

namespace AttributeFilter.Registry

/-- A way from one family to another: at each attribute it crosses into the only family that the
attribute's values may belong to. -/
inductive Traverses (registry : Registry) : Family → List Attribute → Family → Prop
  | here (family : Family) : Traverses registry family [] family
  | across {family next last : Family} {hop : Attribute} {hops : List Attribute} {code : String}
      (declared : family.attribute? hop.code = some hop) (refers : hop.isReference = true)
      (sole : hop.allowedFamilies = [code]) (registered : registry.family? code = some next)
      (rest : Traverses registry next hops last) : Traverses registry family (hop :: hops) last

variable {registry : Registry} {family next last : Family} {field hop : Attribute} {error : Error}

/-! ### Crossing -/

theorem soleFamily?_eq_some_iff {code : String} :
    field.soleFamily? = some code ↔ field.allowedFamilies = [code] := by
  rw [Attribute.soleFamily?]
  split
  · next only h => simp [h]
  · next h =>
    constructor
    · intro hn
      cases hn
    · intro hs
      exact absurd hs (h code)

theorem getFamily_eq_ok_iff {code : String} :
    registry.getFamily code = .ok next ↔ registry.family? code = some next := by
  rw [getFamily]
  cases registry.family? code <;> simp

theorem getAttribute_eq_ok_iff {code : String} :
    family.getAttribute code = .ok field ↔ family.attribute? code = some field := by
  rw [Family.getAttribute]
  cases family.attribute? code <;> simp

theorem getFamily_eq_error_iff {code : String} :
    registry.getFamily code = .error error ↔
      registry.family? code = none ∧ error = .unknownFamily code := by
  rw [getFamily]
  cases registry.family? code <;> simp [eq_comm]

theorem getAttribute_eq_error_iff {code : String} :
    family.getAttribute code = .error error ↔
      family.attribute? code = none ∧ error = .unknownAttribute family.code code := by
  rw [Family.getAttribute]
  cases family.attribute? code <;> simp [eq_comm]

/-- An attribute can be crossed if it refers to data of exactly one family and that family is
registered. -/
theorem targetOf_eq_ok_iff :
    registry.targetOf field = .ok next ↔
      field.isReference = true ∧
        ∃ code, field.allowedFamilies = [code] ∧ registry.family? code = some next := by
  rw [targetOf, Attribute.traversable?]
  by_cases hr : field.isReference = true
  · rw [if_pos hr]
    cases hs : field.soleFamily? with
    | none =>
      constructor
      · intro h
        cases h
      · rintro ⟨_, code, hcode, _⟩
        rw [soleFamily?_eq_some_iff.2 hcode] at hs
        cases hs
    | some code =>
      rw [soleFamily?_eq_some_iff] at hs
      simp [hr, hs, getFamily_eq_ok_iff]
  · simp [hr]

/-! ### Ways -/

theorem traverses_nil_iff : registry.Traverses family [] last ↔ last = family := by
  constructor
  · rintro ⟨⟩
    rfl
  · rintro rfl
    exact .here _

/-- A way crosses its first attribute and goes on from the family behind it. -/
theorem traverses_cons_iff {hops : List Attribute} :
    registry.Traverses family (hop :: hops) last ↔
      family.attribute? hop.code = some hop ∧
        ∃ next, registry.targetOf hop = .ok next ∧ registry.Traverses next hops last := by
  constructor
  · rintro (_ | ⟨declared, refers, sole, registered, rest⟩)
    exact ⟨declared, _, targetOf_eq_ok_iff.2 ⟨refers, _, sole, registered⟩, rest⟩
  · rintro ⟨declared, next, htarget, rest⟩
    obtain ⟨refers, code, sole, registered⟩ := targetOf_eq_ok_iff.1 htarget
    exact .across declared refers sole registered rest

/-- More segments are followed behind the attribute of the first one. -/
theorem follow_cons_eq_ok_iff {segment second : String} {rest : List String}
    {way : List Attribute × Attribute} :
    registry.follow family segment (second :: rest) = .ok way ↔
      ∃ hop next others, family.attribute? segment = some hop ∧ registry.targetOf hop = .ok next ∧
        registry.follow next second rest = .ok (others, way.2) ∧ way.1 = hop :: others := by
  rw [follow, Outcome.bind_eq_ok_iff]
  constructor
  · rintro ⟨hop, hhop, h⟩
    obtain ⟨next, hnext, h⟩ := Outcome.bind_eq_ok_iff.1 h
    obtain ⟨⟨others, field⟩, hothers, h⟩ := Outcome.bind_eq_ok_iff.1 h
    cases h
    exact ⟨hop, next, others, getAttribute_eq_ok_iff.1 hhop, hnext, hothers, rfl⟩
  · rintro ⟨hop, next, others, hhop, hnext, hothers, hway⟩
    refine ⟨hop, getAttribute_eq_ok_iff.2 hhop, Outcome.bind_eq_ok_iff.2 ⟨next, hnext, ?_⟩⟩
    refine Outcome.bind_eq_ok_iff.2 ⟨_, hothers, ?_⟩
    obtain ⟨hops, field⟩ := way
    cases hway
    rfl

/-- Segments lead to an attribute along a way exactly if they are the codes of the attributes that
are crossed, and the code of the one at its end. -/
theorem follow_eq_ok_iff {segment : String} {rest : List String} {hops : List Attribute} :
    registry.follow family segment rest = .ok (hops, field) ↔
      ∃ last, registry.Traverses family hops last ∧ last.attribute? field.code = some field ∧
        segment :: rest = (hops ++ [field]).map Attribute.code := by
  induction rest generalizing family segment hops with
  | nil =>
    rw [follow_nil, Outcome.map_eq_ok_iff]
    constructor
    · rintro ⟨found, hfound, heq⟩
      cases heq
      have hdeclared := getAttribute_eq_ok_iff.1 hfound
      cases Family.code_of_attribute?_eq_some hdeclared
      exact ⟨family, .here family, hdeclared, rfl⟩
    · rintro ⟨last, hway, hdeclared, hsegments⟩
      cases hops with
      | nil =>
        cases traverses_nil_iff.1 hway
        cases hsegments
        exact ⟨field, getAttribute_eq_ok_iff.2 hdeclared, rfl⟩
      | cons hop hops => simp at hsegments
  | cons second rest ih =>
    rw [follow_cons_eq_ok_iff]
    constructor
    · rintro ⟨hop, next, others, hhop, hnext, hothers, rfl⟩
      obtain ⟨last, hway, hdeclared, hsegments⟩ := ih.1 hothers
      cases Family.code_of_attribute?_eq_some hhop
      refine ⟨last, traverses_cons_iff.2 ⟨hhop, next, hnext, hway⟩, hdeclared, ?_⟩
      rw [hsegments]
      rfl
    · rintro ⟨last, hway, hdeclared, hsegments⟩
      cases hops with
      | nil => simp at hsegments
      | cons hop hops =>
        obtain ⟨hhop, next, hnext, hway⟩ := traverses_cons_iff.1 hway
        obtain ⟨rfl, hrest⟩ := List.cons.inj hsegments
        exact ⟨hop, next, hops, hhop, hnext, ih.2 ⟨last, hway, hdeclared, hrest⟩, rfl⟩

theorem attribute?_of_designated? {role : Role} (h : family.designated? role = some field) :
    family.attribute? field.code = some field := by
  obtain ⟨code, _, hfield⟩ := Option.bind_eq_some_iff.1 h
  rw [Family.code_of_attribute?_eq_some hfield]
  exact hfield

/-! ### Pinned families -/

/-- If only one family is kept in data of a resource's type, a filter can be pinned to no other
one. -/
theorem resolve_eq_governing {pinned : Option String} {resource : String} {root : Family}
    (hgoverning : registry.governing resource = .ok root)
    (hresolve : registry.resolve pinned resource = .ok family) : family = root := by
  cases pinned with
  | none => exact Except.ok.inj (hresolve.symm.trans hgoverning)
  | some code =>
    rw [resolve] at hresolve
    obtain ⟨found, hfound, hback⟩ := Outcome.bind_eq_ok_iff.1 hresolve
    split at hback
    · next hbacks =>
      cases hback
      have hmem : family ∈ registry.backing resource :=
        List.mem_filter.2 ⟨mem_of_family?_eq_some (getFamily_eq_ok_iff.1 hfound), hbacks⟩
      rw [governing_eq_ok_iff.1 hgoverning] at hmem
      exact List.mem_singleton.1 hmem
    · cases hback

theorem family?_of_governing {resource : String}
    (h : registry.governing resource = .ok family) :
    registry.family? family.code = some family := by
  have hmem : family ∈ registry.backing resource := by
    rw [governing_eq_ok_iff.1 h]
    exact List.mem_singleton.2 rfl
  exact registry.family?_code (List.mem_filter.1 hmem).1

end AttributeFilter.Registry
