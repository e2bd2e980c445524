import AttributeFilter.Proofs.Schema.Traversal

/-!
# What a property resolves to

A property names an attribute of the family by its code, or else by a designation, or else it is a
dotted name. The segments of a dotted name lead along attributes that can be crossed, up to the
attribute that the last segment names. If they do not, the leftmost segment that breaks the way is
blamed: the ones before it were crossed.

## Main definitions

* `Spells`: a name as segments with dots between them.
* `Registry.Breaks`: a segment that does not lead on, and the error that this is.
* `Registry.Resolves`: what a property resolves to, an error included.

## Main results

* `segmentsOf_eq_iff`: a name is spelt by its segments in one way only.
* `Registry.follow_eq_error_iff`: the segment to blame if segments lead nowhere.
* `Registry.traverses_path`: the path of a property is a way from its root.
* `Registry.property_of_path`: a path remembers its property.
* `Registry.path_eq_iff_resolves`: looking up a property gives what it resolves to.
-/

namespace AttributeFilter

/-! ### Segments -/

/-- The name is written as the segments with dots between them. -/
def Spells (property : String) (segments : List String) : Prop :=
  ".".intercalate segments = property ∧ ∀ segment ∈ segments, '.' ∉ segment.toList

theorem notMem_of_mem_splitOn {separator : Char} {text piece : List Char}
    (h : piece ∈ text.splitOn separator) : separator ∉ piece := by
  induction text generalizing piece with
  | nil =>
    rw [List.splitOn_nil, List.mem_singleton] at h
    simp [h]
  | cons c rest ih =>
    rw [List.splitOn_cons_eq_if_modifyHead] at h
    split at h
    · rcases List.mem_cons.1 h with rfl | h
      · simp
      · exact ih h
    · next hc =>
      cases hpieces : rest.splitOn separator with
      | nil => exact absurd hpieces (List.splitOn_ne_nil _ _)
      | cons first others =>
        rw [hpieces] at h ih
        rcases List.mem_cons.1 h with rfl | h
        · rw [List.mem_cons, not_or]
          exact ⟨fun e => hc (by simp [e]), ih List.mem_cons_self⟩
        · exact ih (List.mem_cons_of_mem _ h)

theorem segmentsOf_ne_nil (property : String) : segmentsOf property ≠ [] :=
  mt List.map_eq_nil_iff.1 (List.splitOn_ne_nil _ _)

/-- The segments of a name are the only ones that spell it. -/
theorem segmentsOf_eq_iff {property : String} {segments : List String} (h : segments ≠ []) :
    segmentsOf property = segments ↔ Spells property segments := by
  constructor
  · rintro rfl
    refine ⟨?_, fun segment hsegment => ?_⟩
    · have hpieces : (segmentsOf property).map String.toList = property.toList.splitOn '.' := by
        rw [segmentsOf, List.map_map]
        exact (List.map_congr_left fun _ _ => String.toList_ofList).trans (List.map_id _)
      rw [← String.toList_inj, String.toList_intercalate, hpieces]
      exact List.intercalate_splitOn '.'
    · obtain ⟨piece, hpiece, rfl⟩ := List.mem_map.1 hsegment
      rw [String.toList_ofList]
      exact notMem_of_mem_splitOn hpiece
  · rintro ⟨rfl, hfree⟩
    have hpieces : ∀ piece ∈ segments.map String.toList, '.' ∉ piece := fun piece hpiece => by
      obtain ⟨segment, hsegment, rfl⟩ := List.mem_map.1 hpiece
      exact hfree segment hsegment
    have hsplit : (".".intercalate segments).toList.splitOn '.' = segments.map String.toList := by
      rw [String.toList_intercalate]
      exact List.splitOn_intercalate '.' hpieces (mt List.map_eq_nil_iff.1 h)
    rw [segmentsOf, segmentSeparator, hsplit, List.map_map]
    exact (List.map_congr_left fun _ _ => String.ofList_toList).trans (List.map_id _)

namespace Registry

variable {registry : Registry} {family : Family} {field : Attribute} {error : Error}

/-! ### Breaks -/

/-- In the family the segment does not lead on to the segments behind it: no attribute has it as its
code, or values of the attribute are not data of exactly one family, or that family is not
registered. -/
inductive Breaks (registry : Registry) (family : Family) (segment : String)
    (rest : List String) : Error → Prop
  | undeclared (unknown : family.attribute? segment = none) :
      Breaks registry family segment rest (.unknownAttribute family.code segment)
  | closed {field : Attribute} (declared : family.attribute? segment = some field)
      (more : rest ≠ [])
      (barred : ¬ (field.isReference = true ∧ ∃ code, field.allowedFamilies = [code])) :
      Breaks registry family segment rest (.unexpectedSchema segment)
  | unregistered {field : Attribute} {code : String}
      (declared : family.attribute? segment = some field) (more : rest ≠ [])
      (refers : field.isReference = true) (sole : field.allowedFamilies = [code])
      (unknown : registry.family? code = none) :
      Breaks registry family segment rest (.unknownFamily code)

/-- An attribute cannot be crossed because of what it refers to, or because nothing is known of the
family that it refers to. -/
theorem targetOf_eq_error_iff :
    registry.targetOf field = .error error ↔
      ¬ (field.isReference = true ∧ ∃ code, field.allowedFamilies = [code]) ∧
          error = .unexpectedSchema field.code ∨
        field.isReference = true ∧ ∃ code, field.allowedFamilies = [code] ∧
          registry.family? code = none ∧ error = .unknownFamily code := by
  rw [targetOf, Attribute.traversable?]
  by_cases hr : field.isReference = true
  · rw [if_pos hr]
    by_cases hsole : ∃ code, field.allowedFamilies = [code]
    · obtain ⟨code, hcode⟩ := hsole
      rw [soleFamily?_eq_some_iff.2 hcode]
      simp [hr, hcode, getFamily_eq_error_iff]
    · have hnone : field.soleFamily? = none :=
        Option.eq_none_iff_forall_ne_some.2 fun code h => hsole ⟨code, soleFamily?_eq_some_iff.1 h⟩
      rw [hnone]
      constructor
      · rintro ⟨⟩
        exact .inl ⟨fun h => hsole h.2, rfl⟩
      · rintro (⟨-, rfl⟩ | ⟨-, code, hcode, -⟩)
        · rfl
        · exact absurd ⟨code, hcode⟩ hsole
  · simp [hr, eq_comm]

/-- A segment breaks the way if it is no attribute, or if there are more segments and the attribute
cannot be crossed. -/
theorem breaks_iff {segment : String} {rest : List String} :
    registry.Breaks family segment rest error ↔
      family.getAttribute segment = .error error ∨
        ∃ hop, family.attribute? segment = some hop ∧ rest ≠ [] ∧
          registry.targetOf hop = .error error := by
  constructor
  · rintro (unknown | ⟨declared, more, barred⟩ | ⟨declared, more, refers, sole, unknown⟩)
    · exact .inl (getAttribute_eq_error_iff.2 ⟨unknown, rfl⟩)
    · refine .inr ⟨_, declared, more, targetOf_eq_error_iff.2 (.inl ⟨barred, ?_⟩)⟩
      rw [Family.code_of_attribute?_eq_some declared]
    · exact .inr ⟨_, declared, more, targetOf_eq_error_iff.2
        (.inr ⟨refers, _, sole, unknown, rfl⟩)⟩
  · rintro (h | ⟨hop, declared, more, h⟩)
    · obtain ⟨unknown, rfl⟩ := getAttribute_eq_error_iff.1 h
      exact .undeclared unknown
    · rcases targetOf_eq_error_iff.1 h with ⟨barred, rfl⟩ | ⟨refers, code, sole, unknown, rfl⟩
      · rw [Family.code_of_attribute?_eq_some declared]
        exact .closed declared more barred
      · exact .unregistered declared more refers sole unknown

/-! ### Segments that lead nowhere -/

theorem follow_cons_eq_error_iff {segment second : String} {rest : List String} :
    registry.follow family segment (second :: rest) = .error error ↔
      registry.Breaks family segment (second :: rest) error ∨
        ∃ hop next, family.attribute? segment = some hop ∧ registry.targetOf hop = .ok next ∧
          registry.follow next second rest = .error error := by
  rw [follow, Outcome.bind_eq_error_iff, breaks_iff]
  constructor
  · rintro (h | ⟨hop, hhop, h⟩)
    · exact .inl (.inl h)
    have hdeclared := getAttribute_eq_ok_iff.1 hhop
    rcases Outcome.bind_eq_error_iff.1 h with h | ⟨next, hnext, h⟩
    · exact .inl (.inr ⟨hop, hdeclared, List.cons_ne_nil _ _, h⟩)
    rcases Outcome.bind_eq_error_iff.1 h with h | ⟨way, -, h⟩
    · exact .inr ⟨hop, next, hdeclared, hnext, h⟩
    · cases h
  · rintro ((h | ⟨hop, hhop, -, h⟩) | ⟨hop, next, hhop, hnext, h⟩)
    · exact .inl h
    · exact .inr ⟨hop, getAttribute_eq_ok_iff.2 hhop, Outcome.bind_eq_error_iff.2 (.inl h)⟩
    · refine .inr ⟨hop, getAttribute_eq_ok_iff.2 hhop, Outcome.bind_eq_error_iff.2 (.inr ?_)⟩
      exact ⟨next, hnext, Outcome.bind_eq_error_iff.2 (.inl h)⟩

/-- Segments do not lead on exactly if one of them breaks the way of those before it. -/
theorem follow_eq_error_iff {segment : String} {rest : List String} :
    registry.follow family segment rest = .error error ↔
      ∃ hops last broken more, registry.Traverses family hops last ∧
        registry.Breaks last broken more error ∧
          segment :: rest = hops.map Attribute.code ++ broken :: more := by
  induction rest generalizing family segment with
  | nil =>
    constructor
    · intro h
      refine ⟨[], family, segment, [], .here family, breaks_iff.2 (.inl ?_), rfl⟩
      rw [follow] at h
      rcases Outcome.bind_eq_error_iff.1 h with h | ⟨field, -, h⟩
      · exact h
      · cases h
    · rintro ⟨hops, last, broken, more, hway, hbreaks, hsegments⟩
      cases hops with
      | nil =>
        cases traverses_nil_iff.1 hway
        cases hsegments
        rcases breaks_iff.1 hbreaks with h | ⟨-, -, hmore, -⟩
        · exact Outcome.bind_eq_error_iff.2 (.inl h)
        · exact absurd rfl hmore
      | cons hop hops => simp at hsegments
  | cons second rest ih =>
    rw [follow_cons_eq_error_iff]
    constructor
    · rintro (hbreaks | ⟨hop, next, hhop, hnext, h⟩)
      · exact ⟨[], family, segment, second :: rest, .here family, hbreaks, rfl⟩
      · obtain ⟨hops, last, broken, more, hway, hbreaks, hsegments⟩ := ih.1 h
        cases Family.code_of_attribute?_eq_some hhop
        refine ⟨hop :: hops, last, broken, more,
          traverses_cons_iff.2 ⟨hhop, next, hnext, hway⟩, hbreaks, ?_⟩
        rw [hsegments]
        rfl
    · rintro ⟨hops, last, broken, more, hway, hbreaks, hsegments⟩
      cases hops with
      | nil =>
        cases traverses_nil_iff.1 hway
        cases hsegments
        exact .inl hbreaks
      | cons hop hops =>
        obtain ⟨hhop, next, hnext, hway⟩ := traverses_cons_iff.1 hway
        obtain ⟨rfl, hrest⟩ := List.cons.inj hsegments
        exact .inr ⟨hop, next, hhop, hnext,
          ih.2 ⟨hops, last, broken, more, hway, hbreaks, hrest⟩⟩

/-! ### What properties resolve to -/

theorem ofName?_eq_some_iff {property : String} {role : Role} :
    Role.ofName? property = some role ↔ property = role.name := by
  constructor
  · intro h
    rw [Role.ofName?] at h
    split_ifs at h with hlabel hidentifier
    · exact Option.some.inj h ▸ hlabel
    · exact Option.some.inj h ▸ hidentifier
  · rintro rfl
    cases role <;> rfl

theorem ofName?_eq_none_iff {property : String} :
    Role.ofName? property = none ↔ ∀ role : Role, property ≠ role.name := by
  rw [Option.eq_none_iff_forall_ne_some]
  exact forall_congr' fun _ => not_congr ofName?_eq_some_iff

/-- What a property resolves to in a family: an attribute of that code if there is one, then what
the family designates if it is the name of a designation, then the end of the way that a dotted
name spells. A dotted name that spells no way is the error of the leftmost segment that breaks. -/
inductive Resolves (registry : Registry) (family : Family) (property : String) :
    Except Error AttributePath → Prop
  | declared {field : Attribute} (known : family.attribute? property = some field) :
      Resolves registry family property
        (.ok { property, root := family, hops := [], target := field })
  | designated {field : Attribute} {role : Role} (unknown : family.attribute? property = none)
      (named : property = role.name) (known : family.designated? role = some field) :
      Resolves registry family property
        (.ok { property, root := family, hops := [], target := field })
  | undesignated {role : Role} (unknown : family.attribute? property = none)
      (named : property = role.name) (vacant : family.designated? role = none) :
      Resolves registry family property (.error (.unknownAttribute family.code property))
  | plain (unknown : family.attribute? property = none)
      (unnamed : ∀ role : Role, property ≠ role.name) (plain : '.' ∉ property.toList) :
      Resolves registry family property (.error (.unknownAttribute family.code property))
  | dotted {hops : List Attribute} {last : Family} {target : Attribute}
      (unknown : family.attribute? property = none)
      (unnamed : ∀ role : Role, property ≠ role.name) (dotted : '.' ∈ property.toList)
      (spells : Spells property ((hops ++ [target]).map Attribute.code))
      (way : registry.Traverses family hops last)
      (known : last.attribute? target.code = some target) :
      Resolves registry family property (.ok { property, root := family, hops, target })
  | broken {hops : List Attribute} {last : Family} {segment : String} {rest : List String}
      {error : Error} (unknown : family.attribute? property = none)
      (unnamed : ∀ role : Role, property ≠ role.name) (dotted : '.' ∈ property.toList)
      (spells : Spells property (hops.map Attribute.code ++ segment :: rest))
      (way : registry.Traverses family hops last)
      (breaks : registry.Breaks last segment rest error) :
      Resolves registry family property (.error error)

/-- The path of a dotted name is where its segments lead. -/
theorem dottedPath_of_spells {property segment : String} {rest : List String}
    (spells : Spells property (segment :: rest)) :
    registry.dottedPath family property = (registry.follow family segment rest).map fun way =>
      { property, root := family, hops := way.1, target := way.2 } := by
  simp only [dottedPath, (segmentsOf_eq_iff (List.cons_ne_nil _ _)).2 spells]
  cases registry.follow family segment rest <;> rfl

/-- A dotted name resolves to the end of the way that its segments spell, and otherwise to what
breaks it. -/
theorem resolves_dottedPath {property : String} (unknown : family.attribute? property = none)
    (unnamed : ∀ role : Role, property ≠ role.name) (dotted : '.' ∈ property.toList) :
    registry.Resolves family property (registry.dottedPath family property) := by
  obtain ⟨segment, rest, hsegments⟩ := List.exists_cons_of_ne_nil (segmentsOf_ne_nil property)
  have hspells := (segmentsOf_eq_iff (List.cons_ne_nil _ _)).1 hsegments
  rw [dottedPath_of_spells hspells]
  cases hfollow : registry.follow family segment rest with
  | ok way =>
    obtain ⟨last, hway, hknown, hcodes⟩ := follow_eq_ok_iff.1 hfollow
    exact .dotted unknown unnamed dotted (hcodes ▸ hspells) hway hknown
  | error error =>
    obtain ⟨hops, last, broken, more, hway, hbreaks, hcodes⟩ := follow_eq_error_iff.1 hfollow
    exact .broken unknown unnamed dotted (hcodes ▸ hspells) hway hbreaks

theorem path_of_named {property : String} {role : Role}
    (unknown : family.attribute? property = none) (named : property = role.name) :
    registry.path family property =
      match family.designated? role with
      | some field => .ok (.direct family property field)
      | none => .error (.unknownAttribute family.code property) := by
  have hrole := ofName?_eq_some_iff.2 named
  cases hdesignated : family.designated? role <;> simp [path, unknown, hrole, hdesignated]

theorem path_of_unnamed {property : String} (unknown : family.attribute? property = none)
    (unnamed : ∀ role : Role, property ≠ role.name) :
    registry.path family property =
      if '.' ∈ property.toList then registry.dottedPath family property
      else .error (.unknownAttribute family.code property) := by
  simp [path, unknown, ofName?_eq_none_iff.2 unnamed, isDotted, segmentSeparator]

theorem resolves_path (property : String) :
    registry.Resolves family property (registry.path family property) := by
  cases unknown : family.attribute? property with
  | some field =>
    rw [path_of_declared unknown]
    exact .declared unknown
  | none =>
    by_cases named : ∃ role : Role, property = role.name
    · obtain ⟨role, named⟩ := named
      rw [path_of_named unknown named]
      cases hdesignated : family.designated? role with
      | some field => exact .designated unknown named hdesignated
      | none => exact .undesignated unknown named hdesignated
    · have unnamed := not_exists.1 named
      rw [path_of_unnamed unknown unnamed]
      split
      · next hdotted => exact resolves_dottedPath unknown unnamed hdotted
      · next hplain => exact .plain unknown unnamed hplain

/-- The path of a property is a way from its root to a family that declares its target. -/
theorem traverses_path {property : String} {path : AttributePath}
    (h : registry.path family property = .ok path) :
    ∃ last, registry.Traverses family path.hops last ∧
      last.attribute? path.target.code = some path.target := by
  have hresolves : registry.Resolves family property (.ok path) := h ▸ resolves_path property
  cases hresolves with
  | declared known =>
    refine ⟨family, .here family, ?_⟩
    rwa [Family.code_of_attribute?_eq_some known]
  | designated _ _ known => exact ⟨family, .here family, attribute?_of_designated? known⟩
  | dotted _ _ _ _ way known => exact ⟨_, way, known⟩

theorem property_of_path {property : String} {path : AttributePath}
    (h : registry.path family property = .ok path) : path.property = property := by
  have hresolves : registry.Resolves family property (.ok path) := h ▸ resolves_path property
  cases hresolves <;> rfl

/-- Looking up a property in a family gives exactly what the property resolves to. -/
theorem path_eq_iff_resolves (registry : Registry) (family : Family) (property : String)
    (outcome : Except Error AttributePath) :
    registry.path family property = outcome ↔ registry.Resolves family property outcome := by
  constructor
  · rintro rfl
    exact resolves_path property
  · rintro (known | ⟨unknown, named, known⟩ | ⟨unknown, named, vacant⟩ |
      ⟨unknown, unnamed, hplain⟩ | ⟨unknown, unnamed, hdotted, spells, way, known⟩ |
      ⟨unknown, unnamed, hdotted, spells, way, breaks⟩)
    · exact path_of_declared known
    · rw [path_of_named unknown named, known]
      rfl
    · rw [path_of_named unknown named, vacant]
    · rw [path_of_unnamed unknown unnamed, if_neg hplain]
    · rw [path_of_unnamed unknown unnamed, if_pos hdotted]
      obtain ⟨segment, rest, hcodes⟩ := List.exists_cons_of_ne_nil
        (mt List.map_eq_nil_iff.1 (List.append_ne_nil_of_right_ne_nil _ (List.cons_ne_nil _ _)))
      rw [hcodes] at spells
      rw [dottedPath_of_spells spells, follow_eq_ok_iff.2 ⟨_, way, known, hcodes.symm⟩]
      rfl
    · rw [path_of_unnamed unknown unnamed, if_pos hdotted]
      obtain ⟨segment, rest, hcodes⟩ := List.exists_cons_of_ne_nil
        (List.append_ne_nil_of_right_ne_nil _ (List.cons_ne_nil _ _))
      rw [hcodes] at spells
      rw [dottedPath_of_spells spells,
        follow_eq_error_iff.2 ⟨_, _, _, _, way, breaks, hcodes.symm⟩]
      rfl

end Registry

end AttributeFilter
