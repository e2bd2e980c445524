import AttributeFilter.Proofs.Query.Stations
import AttributeFilter.Sample.Filters

/-!
# Naming the records that a value refers to

A value that refers to records is equal to a text if the text names one of them: it is the
identifier that the record is stored under, or it stands for the value at the identifier of the
record's family. So a list of references is equal to a text if one of them would be on its own, and
asking for equality looks through the references as a dotted condition on the identifying attribute
does.

## Main definitions

* `Value.IsReference`: a value that refers to records.
* `Store.Names`: a text names the record that is referred to.
* `Store.IdentifiedAt`: the records that a value refers to are all identified by one attribute.

## Main results

* `Value.matchesText_iff_of_isReference`: a text that stands for a reference is an identifier in it.
* `Store.denotes_iff_of_isReference`: a reference is equal to the texts that name a record it refers
  to.
* `Predicate.equality_of_references`: equality with a reference and the dotted condition on the
  identifying attribute.
-/

namespace AttributeFilter

inductive Value.IsReference : Value → Prop
  | single (id : Uuid) : IsReference (.reference id)
  | several (ids : List Uuid) : IsReference (.references ids)

instance (held : Value) : Decidable held.IsReference :=
  match held with
  | .reference id => .isTrue (.single id)
  | .references ids => .isTrue (.several ids)
  | .integer _ | .boolean _ | .decimal _ | .text _ | .date _ | .instant _ => .isFalse nofun

/-- A text that stands for a reference is one of the identifiers in it. -/
theorem Value.matchesText_iff_of_isReference {raw : String} {held : Value}
    (h : held.IsReference) :
    held.matchesText raw = true ↔
      ∃ id ∈ held.targets, Uuid.ofText? (Text.trim Text.isBlank raw.toList) = some id := by
  cases h with
  | single id => simp [matchesText, matchesTrimmed, targets]
  | several ids =>
    simp only [matchesText, matchesTrimmed, targets, Option.any_eq_true, List.contains_iff_mem]
    exact exists_congr fun id => and_comm

theorem Value.targets_eq_nil {held : Value} (h : ¬ held.IsReference) : held.targets = [] := by
  cases held with
  | reference id => exact absurd (.single id) h
  | references ids => exact absurd (.several ids) h
  | _ => rfl

namespace Store

variable {store : Store} {registry : Registry} {raw : String} {held : Value}

/-- A text names the record that an identifier refers to: it is that identifier, or the record is
stored and the text stands for its value at the identifier of its family. -/
def Names (store : Store) (registry : Registry) (raw : String) (id : Uuid) : Prop :=
  Uuid.ofText? (Text.trim Text.isBlank raw.toList) = some id ∨
    ∃ referred family identifier held,
      store.get? id = some referred ∧ registry.family? referred.family = some family ∧
        family.designated? .identifier = some identifier ∧
          referred.value? identifier.code = some held ∧ held.matchesText raw = true

instance (store : Store) (registry : Registry) (raw : String) (id : Uuid) :
    Decidable (store.Names registry raw id) :=
  decidable_of_iff (Uuid.ofText? (Text.trim Text.isBlank raw.toList) = some id ∨
    store.identifies registry raw id = true) (or_congr_right identifies_iff)

/-- A reference is equal to a text that names one of the records it refers to. -/
theorem denotes_iff_of_isReference (h : held.IsReference) :
    store.Denotes registry raw held ↔ ∃ id ∈ held.targets, store.Names registry raw id := by
  simp only [Denotes, Value.matchesText_iff_of_isReference h, Names, and_or_left, exists_or]

/-- Any other value is equal to the texts that stand for it. -/
theorem denotes_iff_of_not_isReference (h : ¬ held.IsReference) :
    store.Denotes registry raw held ↔ held.matchesText raw = true := by
  simp [Denotes, Value.targets_eq_nil h]

theorem equalsText_references_iff {ids : List Uuid} :
    store.equalsText registry raw (.references ids) = true ↔
      ∃ id ∈ ids, store.equalsText registry raw (.reference id) = true := by
  simp only [equalsText_iff, denotes_iff_of_isReference (.several ids),
    denotes_iff_of_isReference (.single _), Value.targets, List.mem_singleton, exists_eq_left]

/-- The stored records that a value refers to belong to registered families, all of which take the
attribute with the code for their identifier, and none of them holds a reference there. -/
structure IdentifiedAt (store : Store) (registry : Registry) (held : Value) (code : String) :
    Prop where
  designated : ∀ id ∈ held.targets, ∀ referred, store.get? id = some referred →
    ∃ family identifier, registry.family? referred.family = some family ∧
      family.designated? .identifier = some identifier ∧ identifier.code = code
  plain : ∀ id ∈ held.targets, ∀ referred, store.get? id = some referred →
    ∀ inner, referred.value? code = some inner → ¬ inner.IsReference

/-- The identifying values that a text stands for are those that it is equal to. -/
theorem IdentifiedAt.identifies_iff {code : String} (h : store.IdentifiedAt registry held code)
    {id : Uuid} (hid : id ∈ held.targets) :
    store.identifies registry raw id = true ↔
      ∃ referred, store.get? id = some referred ∧
        ∃ inner, referred.value? code = some inner ∧ store.Denotes registry raw inner := by
  rw [Store.identifies_iff]
  constructor
  · rintro ⟨referred, family, identifier, inner, hstored, hfamily, hdesignated, hinner, hmatches⟩
    obtain ⟨family', identifier', hfamily', hdesignated', rfl⟩ :=
      h.designated id hid referred hstored
    cases hfamily.symm.trans hfamily'
    cases hdesignated.symm.trans hdesignated'
    exact ⟨referred, hstored, inner, hinner, .inl hmatches⟩
  · rintro ⟨referred, hstored, inner, hinner, hdenotes⟩
    obtain ⟨family, identifier, hfamily, hdesignated, rfl⟩ := h.designated id hid referred hstored
    have hplain := h.plain id hid referred hstored inner hinner
    exact ⟨referred, family, identifier, inner, hstored, hfamily, hdesignated, hinner,
      (denotes_iff_of_not_isReference hplain).1 hdenotes⟩

end Store

namespace Predicate

variable {store : Store} {registry : Registry} {raw : String}

/-- The dotted condition on the identifying attribute asks whether the text identifies one of the
records that the value refers to. -/
theorem holds_dotted_equals_iff {record : Record} {code identifier : String} {held : Value}
    (hheld : record.value? code = some held)
    (hidentified : store.IdentifiedAt registry held identifier) (owner : String) :
    (equals { hops := [code], family := owner, code := identifier } (.text raw)).holds
        store registry record = true ↔
      held.targets.any (store.identifies registry raw) = true := by
  have hids : Store.idsAt record code = held.targets := by
    rw [Store.idsAt, hheld]
    rfl
  simp only [holds, Test.holdsAt_cons, Test.holdsAt_nil, hids, List.any_eq_true,
    Option.any_eq_true, Test.passes, Comparand.isEqual, Store.equalsText_iff]
  exact exists_congr fun id => and_congr_right fun hid => (hidentified.identifies_iff hid).symm

/-- **Equality with references.** A list of references is equal to a text exactly if one of them
would be on its own. Let a record hold a value that refers to records which are all identified by
one attribute. Equality at that value then holds exactly if the text is an identifier in it, or if
the dotted condition holds that asks the identifying attribute for equality. -/
theorem equality_of_references (store : Store) (registry : Registry) (raw : String) :
    (∀ ids, store.equalsText registry raw (.references ids) = true ↔
      ∃ id ∈ ids, store.equalsText registry raw (.reference id) = true) ∧
    ∀ (record : Record) (code identifier : String) (held : Value),
      record.value? code = some held → held.IsReference →
        store.IdentifiedAt registry held identifier → ∀ family owner,
          ((equals { hops := [], family, code } (.text raw)).holds store registry record = true ↔
            (∃ id ∈ held.targets, Uuid.ofText? (Text.trim Text.isBlank raw.toList) = some id) ∨
              (equals { hops := [code], family := owner, code := identifier } (.text raw)).holds
                store registry record = true) := by
  refine ⟨fun ids => Store.equalsText_references_iff, ?_⟩
  intro record code identifier held hheld hreference hidentified family owner
  rw [holds_dotted_equals_iff hheld hidentified, holds, Test.holdsAt_nil, hheld, Option.any_some,
    Test.passes, Comparand.isEqual, Store.equalsText, Bool.or_eq_true,
    Value.matchesText_iff_of_isReference hreference]

/-! ### Products sold together -/

/-- Two products of the catalog, and one that is not in it any more. -/
def bundled : Value :=
  .references [Catalog.recordId 3, Catalog.recordId 9, Catalog.recordId 4]

def bundle : Record where
  id := Catalog.recordId 6
  family := "Bundle"
  values := [("parts", bundled)]

/-- The products of the bundle are identified by their article numbers. -/
theorem identifiedAt_bundled : Catalog.store.IdentifiedAt Catalog.families bundled "sku" := by
  have hdesignated : ∀ id ∈ bundled.targets, ∀ referred ∈ Catalog.store.get? id,
      ((Catalog.families.family? referred.family).bind
        (·.designated? .identifier)).map Attribute.code = some "sku" := by
    decide +kernel
  have hplain : ∀ id ∈ bundled.targets, ∀ referred ∈ Catalog.store.get? id,
      ∀ inner ∈ referred.value? "sku", ¬ inner.IsReference := by
    decide +kernel
  refine ⟨fun id hid referred hstored => ?_, hplain⟩
  obtain ⟨identifier, hfound, hcode⟩ :=
    Option.map_eq_some_iff.1 (hdesignated id hid referred hstored)
  obtain ⟨family, hfamily, hidentifier⟩ := Option.bind_eq_some_iff.1 hfound
  exact ⟨family, identifier, hfamily, hidentifier, hcode⟩

/-- The bundle is found by the article number of one of its products, through the references and by
the dotted condition. -/
theorem equality_of_references_bundle :
    (bundle.value? "parts" = some bundled ∧ bundled.IsReference ∧
      Catalog.store.IdentifiedAt Catalog.families bundled "sku") ∧
    ((equals { hops := [], family := "Bundle", code := "parts" } (.text "BOOT-1")).holds
        Catalog.store Catalog.families bundle = true ↔
      (∃ id ∈ bundled.targets, Uuid.ofText? (Text.trim Text.isBlank "BOOT-1".toList) = some id) ∨
        (equals { hops := ["parts"], family := "Product", code := "sku" } (.text "BOOT-1")).holds
          Catalog.store Catalog.families bundle = true) ∧
    (equals { hops := [], family := "Bundle", code := "parts" } (.text "BOOT-1")).holds
      Catalog.store Catalog.families bundle = true :=
  ⟨⟨rfl, .several _, identifiedAt_bundled⟩,
    (equality_of_references Catalog.store Catalog.families "BOOT-1").2 bundle "parts" "sku" bundled
      rfl (.several _) identifiedAt_bundled "Bundle" "Product",
    by decide +kernel⟩

end Predicate

end AttributeFilter
