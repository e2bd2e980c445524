import AttributeFilter.Schema.Registry

/-!
# Families under construction

A family can be put together step by step: attributes are added in order, and one of them may be
designated as label and one as identifier. The steps are checked when the family is built. An
attribute belongs to the family that it is taken in by, whichever family it was said to belong to
before.

## Main definitions

* `FamilyBuilder`: a family under construction, with a method for each step.
* `FamilyBuilder.ofSettings`: the steps that the settings of a family amount to.
* `FamilyBuilder.Intake`: attributes that a family has taken in.
* `FamilyBuilder.build`: checks the steps.
* `Registry.ofBuilders`: builds families in order, then their registry.

## Main results

* `FamilyBuilder.declared_of_missing?_eq_none`: designations that pass the check name attributes.
-/

namespace AttributeFilter

structure FamilyBuilder where
  code : String
  dataClass : String
  attributes : List Attribute := []
  label : Option String := none
  identifier : Option String := none

namespace FamilyBuilder

/-! ### Steps -/

def add (builder : FamilyBuilder) (field : Attribute) : FamilyBuilder :=
  { builder with attributes := builder.attributes ++ [field] }

def labelled (builder : FamilyBuilder) (code : String) : FamilyBuilder :=
  { builder with label := some code }

def identified (builder : FamilyBuilder) (code : String) : FamilyBuilder :=
  { builder with identifier := some code }

def designation (builder : FamilyBuilder) : Role → Option String
  | .label => builder.label
  | .identifier => builder.identifier

/-- Adds attributes that are not yet said to belong to any family. -/
def addFields (builder : FamilyBuilder) (fields : List (String × AttributeSettings)) :
    FamilyBuilder :=
  fields.foldl (fun builder entry => builder.add { entry.2 with code := entry.1, family := "" })
    builder

/-- The steps that the settings of a family amount to. -/
def ofSettings (code : String) (settings : FamilySettings) : FamilyBuilder :=
  let described :=
    ({ code, dataClass := settings.dataClass } : FamilyBuilder).addFields settings.fields
  let labelled := (settings.label.map described.labelled).getD described
  (settings.identifier.map labelled.identified).getD labelled

/-! ### Checks -/

/-- The attributes that the family with the code has taken in. -/
structure Intake (code : String) where
  attributes : List Attribute
  codes_nodup : (attributes.map Attribute.code).Nodup
  owned : ∀ field ∈ attributes, field.family = code

namespace Intake

variable {code : String}

def empty (code : String) : Intake code where
  attributes := []
  codes_nodup := List.nodup_nil
  owned field h := by cases h

def codes (intake : Intake code) : List String :=
  intake.attributes.map Attribute.code

/-- Takes an attribute in. Its code must be new. -/
def take (intake : Intake code) (field : Attribute) : Except Error (Intake code) :=
  if h : field.code ∈ intake.codes then
    .error (.invalidSchema (.duplicateAttribute field.code code))
  else .ok {
    attributes := intake.attributes ++ [{ field with family := code }]
    codes_nodup := by
      rw [List.map_append, List.nodup_append]
      refine ⟨intake.codes_nodup, by simp, fun known hknown added hadded => ?_⟩
      rw [List.map_singleton, List.mem_singleton] at hadded
      subst hadded
      exact fun e => h (e ▸ hknown)
    owned := fun other hother => by
      rcases List.mem_append.1 hother with hother | hother
      · exact intake.owned other hother
      · rw [List.mem_singleton.1 hother] }

end Intake

/-- The fault of a designation that is none of the codes. -/
def missingFor? (builder : FamilyBuilder) (codes : List String) (role : Role) :
    Option SchemaFault :=
  match builder.designation role with
  | none => none
  | some name => if name ∈ codes then none else some (.undeclaredRole role name builder.code)

/-- The fault of the first designation that is none of the codes. The label is looked at first. -/
def missing? (builder : FamilyBuilder) (codes : List String) : Option SchemaFault :=
  [Role.label, Role.identifier].findSome? (builder.missingFor? codes)

theorem declared_of_missing?_eq_none {builder : FamilyBuilder} {codes : List String}
    (h : builder.missing? codes = none) (role : Role) (name : String)
    (hn : builder.designation role = some name) : name ∈ codes := by
  have hrole := List.findSome?_eq_none_iff.1 h role (by cases role <;> simp)
  rw [missingFor?, hn] at hrole
  by_cases hm : name ∈ codes
  · exact hm
  · simp [hm] at hrole

/-- The family with the attributes that were taken in, if the designations are among them. -/
def conclude (builder : FamilyBuilder) (intake : Intake builder.code) : Except Error Family :=
  match h : builder.missing? intake.codes with
  | some fault => .error (.invalidSchema fault)
  | none => .ok {
      code := builder.code
      dataClass := builder.dataClass
      attributes := intake.attributes
      label := builder.label
      identifier := builder.identifier
      codes_nodup := intake.codes_nodup
      owned := intake.owned
      label_declared := declared_of_missing?_eq_none h .label
      identifier_declared := declared_of_missing?_eq_none h .identifier }

/-- Takes the attributes in one after the other, then looks at the designations. -/
def build (builder : FamilyBuilder) : Except Error Family := do
  builder.conclude (← builder.attributes.foldlM Intake.take (Intake.empty builder.code))

end FamilyBuilder

def Registry.ofBuilders (builders : List FamilyBuilder) : Except Error Registry := do
  ofFamilies (← builders.mapM FamilyBuilder.build)

end AttributeFilter
