import AttributeFilter.Error
import AttributeFilter.Schema.Attribute

/-!
# Families

A family is a kind of data that is defined at run time: the type of the data it is kept in, and
attributes in the order of their declaration. One attribute may act as the label and one as the
identifier.

## Main definitions

* `FamilySettings`: what a schema says of a family.
* `Family`: a family with distinct attributes, whose designations name attributes of its own.
* `Family.build`: checks the settings of a family.
* `Family.attribute?`, `Family.getAttribute`, `Family.designated?`: look-up.

## Main results

* `Family.declares_iff`: an attribute is found exactly by the code of one that is declared.
* `Family.attribute?_code`: every declared attribute is found by its own code.
-/

namespace AttributeFilter

structure FamilySettings where
  dataClass : String
  label : Option String := none
  identifier : Option String := none
  fields : List (String × AttributeSettings) := []
  deriving Repr

namespace FamilySettings

def designation (settings : FamilySettings) : Role → Option String
  | .label => settings.label
  | .identifier => settings.identifier

def attributes (settings : FamilySettings) (code : String) : List Attribute :=
  settings.fields.map fun entry => { entry.2 with code := entry.1, family := code }

theorem map_code_attributes (settings : FamilySettings) (code : String) :
    (settings.attributes code).map Attribute.code = Keyed.keys settings.fields := by
  simp [attributes, Keyed.keys]

end FamilySettings

structure Family where
  code : String
  dataClass : String
  attributes : List Attribute
  label : Option String
  identifier : Option String
  codes_nodup : (attributes.map Attribute.code).Nodup
  owned : ∀ field ∈ attributes, field.family = code
  label_declared : ∀ name, label = some name → name ∈ attributes.map Attribute.code
  identifier_declared : ∀ name, identifier = some name → name ∈ attributes.map Attribute.code

namespace Family

def attribute? (family : Family) (code : String) : Option Attribute :=
  family.attributes.find? (·.code == code)

def declares (family : Family) (code : String) : Bool :=
  (family.attribute? code).isSome

/-- The attribute with the code; it is an error if there is none. -/
def getAttribute (family : Family) (code : String) : Except Error Attribute :=
  match family.attribute? code with
  | some field => .ok field
  | none => .error (.unknownAttribute family.code code)

/-- The codes of the attributes in the order of declaration. -/
def codes (family : Family) : List String :=
  family.attributes.map Attribute.code

def designation (family : Family) : Role → Option String
  | .label => family.label
  | .identifier => family.identifier

def designated? (family : Family) (role : Role) : Option Attribute :=
  (family.designation role).bind family.attribute?

/-! ### Building -/

/-- The fault of a designation: it names no declared attribute. -/
def undeclared? (code : String) (settings : FamilySettings) (role : Role) : Option SchemaFault :=
  match settings.designation role with
  | none => none
  | some name =>
    if name ∈ Keyed.keys settings.fields then none else some (.undeclaredRole role name code)

/-- The first fault of the settings of a family: a repeated attribute, then a designation without
attribute, the label's first. -/
def fault? (code : String) (settings : FamilySettings) : Option SchemaFault :=
  match Keyed.repeated? (Keyed.keys settings.fields) with
  | some repeated => some (.duplicateAttribute repeated code)
  | none => (undeclared? code settings .label).or (undeclared? code settings .identifier)

theorem undeclared?_eq_none {code : String} {settings : FamilySettings} {role : Role}
    (h : undeclared? code settings role = none) (name : String)
    (hn : settings.designation role = some name) : name ∈ Keyed.keys settings.fields := by
  rw [undeclared?, hn] at h
  by_cases hm : name ∈ Keyed.keys settings.fields
  · exact hm
  · simp [hm] at h

theorem nodup_of_fault?_eq_none {code : String} {settings : FamilySettings}
    (h : fault? code settings = none) : (Keyed.keys settings.fields).Nodup := by
  rw [← Keyed.repeated?_eq_none_iff]
  unfold fault? at h
  split at h
  · simp at h
  · assumption

theorem undeclared?_of_fault?_eq_none {code : String} {settings : FamilySettings}
    (h : fault? code settings = none) (role : Role) : undeclared? code settings role = none := by
  unfold fault? at h
  split at h
  · simp at h
  · rw [Option.or_eq_none_iff] at h
    cases role
    · exact h.1
    · exact h.2

def ofSettings (code : String) (settings : FamilySettings) (h : fault? code settings = none) :
    Family where
  code
  dataClass := settings.dataClass
  attributes := settings.attributes code
  label := settings.label
  identifier := settings.identifier
  codes_nodup := by
    rw [FamilySettings.map_code_attributes]
    exact nodup_of_fault?_eq_none h
  owned field hf := by
    obtain ⟨entry, _, rfl⟩ := List.mem_map.1 hf
    rfl
  label_declared name hn := by
    rw [FamilySettings.map_code_attributes]
    exact undeclared?_eq_none (undeclared?_of_fault?_eq_none h .label) name hn
  identifier_declared name hn := by
    rw [FamilySettings.map_code_attributes]
    exact undeclared?_eq_none (undeclared?_of_fault?_eq_none h .identifier) name hn

/-- Checks the settings of a family. -/
def build (code : String) (settings : FamilySettings) : Except Error Family :=
  match h : fault? code settings with
  | none => .ok (ofSettings code settings h)
  | some fault => .error (.invalidSchema fault)

/-! ### Look-up -/

theorem code_of_attribute?_eq_some {family : Family} {code : String} {field : Attribute}
    (h : family.attribute? code = some field) : field.code = code := by
  have hf := List.find?_some h
  exact beq_iff_eq.1 hf

theorem mem_of_attribute?_eq_some {family : Family} {code : String} {field : Attribute}
    (h : family.attribute? code = some field) : field ∈ family.attributes :=
  List.mem_of_find?_eq_some h

/-- An attribute is found exactly by the code of one that is declared. -/
theorem declares_iff (family : Family) (code : String) :
    family.declares code = true ↔ code ∈ family.codes := by
  simp [declares, attribute?, codes]

/-- In a list with distinct codes each attribute is found by its own. -/
theorem find?_code_eq_some : {attributes : List Attribute} →
    (attributes.map Attribute.code).Nodup → {field : Attribute} → field ∈ attributes →
      attributes.find? (·.code == field.code) = some field
  | [], _, _, h => by simp at h
  | first :: rest, hd, field, h => by
    rw [List.map_cons, List.nodup_cons] at hd
    rcases List.mem_cons.1 h with rfl | h
    · simp
    · have hne : first.code ≠ field.code := fun e => hd.1 (e ▸ List.mem_map_of_mem h)
      rw [List.find?_cons_of_neg (by simpa using hne)]
      exact find?_code_eq_some hd.2 h

theorem attribute?_code (family : Family) {field : Attribute} (h : field ∈ family.attributes) :
    family.attribute? field.code = some field :=
  find?_code_eq_some family.codes_nodup h

end Family

end AttributeFilter
