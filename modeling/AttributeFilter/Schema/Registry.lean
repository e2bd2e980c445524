import AttributeFilter.Schema.Family
import AttributeFilter.Text.Blank

/-!
# The registry of families

All families that are known, in the order of their declaration. A resource is given by the type of
its data; several families may be kept in data of one type, and then a resource of that type does
not say which of them governs it.

## Main definitions

* `Registry`: families with distinct codes.
* `Registry.ofFamilies`, `Registry.build`, `Registry.ofSchema`: from families, from the settings
  of families in order, and from settings under names.
* `Registry.family?`, `Registry.getFamily`: look-up by code.
* `Registry.backing`: the families kept in data of a type.
* `Registry.governing`, `Registry.resolve`: the family that governs a resource, possibly pinned.

## Main results

* `Registry.family?_code`: every family is found by its own code.
* `Registry.governing_eq_ok_iff`: a resource is governed by a family exactly if no other one is
  kept in data of its type.
-/

namespace AttributeFilter

/-- A type name without the separators in front, which do not tell types apart. -/
def bareTypeName (name : String) : String :=
  String.ofList (Text.trimStart (fun c => c = '\\' || c = ':') name.toList)

structure Registry where
  families : List Family
  codes_nodup : (families.map Family.code).Nodup

namespace Registry

/-- The registry of the families; they must have distinct codes. -/
def ofFamilies (families : List Family) : Except Error Registry :=
  match h : Keyed.repeated? (families.map Family.code) with
  | none => .ok { families, codes_nodup := (Keyed.repeated?_eq_none_iff _).1 h }
  | some code => .error (.invalidSchema (.duplicateFamily code))

def build (definitions : List (String × FamilySettings)) : Except Error Registry := do
  ofFamilies (← definitions.mapM fun entry => Family.build entry.1 entry.2)

/-- Settings in which a repeated name has its last value, for families and attributes. -/
def keyed (definitions : List (String × FamilySettings)) : List (String × FamilySettings) :=
  Keyed.ofList (definitions.map fun entry =>
    (entry.1, { entry.2 with fields := Keyed.ofList entry.2.fields }))

/-- The registry of settings under names, of which a repeated one has its last value. -/
def ofSchema (definitions : List (String × FamilySettings)) : Except Error Registry :=
  build (keyed definitions)

/-! ### Look-up -/

def family? (registry : Registry) (code : String) : Option Family :=
  registry.families.find? (·.code == code)

def knows (registry : Registry) (code : String) : Bool :=
  (registry.family? code).isSome

/-- The family with the code; it is an error if there is none. -/
def getFamily (registry : Registry) (code : String) : Except Error Family :=
  match registry.family? code with
  | some family => .ok family
  | none => .error (.unknownFamily code)

/-- Whether a family is kept in data of the type. -/
def backs (family : Family) (resource : String) : Bool :=
  bareTypeName family.dataClass == bareTypeName resource

/-- The families kept in data of the type, in the order of declaration. -/
def backing (registry : Registry) (resource : String) : List Family :=
  registry.families.filter (backs · resource)

def governing (registry : Registry) (resource : String) : Except Error Family :=
  match registry.backing resource with
  | [] => .error (.unresolvedFamily resource)
  | [family] => .ok family
  | several => .error (.ambiguousFamily resource (several.map Family.code))

/-- The family of a resource for a filter that may be pinned to a family. A pinned family must be
kept in data of the resource's type. -/
def resolve (registry : Registry) (pinned : Option String) (resource : String) :
    Except Error Family :=
  match pinned with
  | none => registry.governing resource
  | some code => do
    let family ← registry.getFamily code
    if backs family resource then .ok family
    else .error (.familyMismatch resource family.code family.dataClass)

/-! ### Laws of the look-up -/

theorem mem_of_family?_eq_some {registry : Registry} {code : String} {family : Family}
    (h : registry.family? code = some family) : family ∈ registry.families :=
  List.mem_of_find?_eq_some h

theorem code_of_family?_eq_some {registry : Registry} {code : String} {family : Family}
    (h : registry.family? code = some family) : family.code = code := by
  have hf := List.find?_some h
  exact beq_iff_eq.1 hf

theorem find?_code_eq_some : {families : List Family} → (families.map Family.code).Nodup →
    {family : Family} → family ∈ families →
      families.find? (·.code == family.code) = some family
  | [], _, _, h => by simp at h
  | first :: rest, hd, family, h => by
    rw [List.map_cons, List.nodup_cons] at hd
    rcases List.mem_cons.1 h with rfl | h
    · simp
    · have hne : first.code ≠ family.code := fun e => hd.1 (e ▸ List.mem_map_of_mem h)
      rw [List.find?_cons_of_neg (by simpa using hne)]
      exact find?_code_eq_some hd.2 h

theorem family?_code (registry : Registry) {family : Family} (h : family ∈ registry.families) :
    registry.family? family.code = some family :=
  find?_code_eq_some registry.codes_nodup h

/-- A resource is governed by a family exactly if no other one is kept in data of its type. -/
theorem governing_eq_ok_iff {registry : Registry} {resource : String} {family : Family} :
    registry.governing resource = .ok family ↔ registry.backing resource = [family] := by
  unfold governing
  split
  · next h => simp [h]
  · next h => simp [h]
  · next h1 h2 => simpa using h2 family

end Registry

end AttributeFilter
