import AttributeFilter.Proofs.Record.History
import AttributeFilter.Proofs.Record.OwnText
import AttributeFilter.Proofs.Text.Trim
import AttributeFilter.Proofs.Uuid
import AttributeFilter.Sample.Catalog

/-!
# The record that a text identifies

A text identifies a record of a family in two ways: it stands for the value at the family's
identifier, or it is the identifier that the record is stored under. The first way comes first, for
all records of the family, and among several records that answer to the text the one that came first
is found. Records of other families are not looked at, even if the text is their identifier.

A record that is identified by a text does not always answer to it. Blanks around a request text do
not count, blanks around a stored one do, so a text with blanks around it only finds records that
answer to what it is without them.

## Main definitions

* `Record.AnswersTo`: a text stands for the value of a record at the identifier of its family.
* `Record.FiledUnder`: a text is the identifier that a record is stored under.
* `Store.FirstAnswering`: the first record that answers to a text.
* `Store.LooksUp`: what is found by a text.

## Main results

* `Store.findByIdentifierValue_eq_some_iff`, `Store.findById_eq_some_iff`: what either way finds.
* `Store.looksUp_findByIdentifier`: what both find together.
* `Store.own_text_found_iff`: when a record answers to its own identifying text.
-/

namespace AttributeFilter

namespace Record

variable {record : Record} {family : Family} {raw : String}

/-- The record is one of the family, and the text stands for its value at the family's
identifier. -/
def AnswersTo (record : Record) (family : Family) (raw : String) : Prop :=
  record.family = family.code ∧
    ∃ identifier held, family.designated? .identifier = some identifier ∧
      record.value? identifier.code = some held ∧ held.matchesText raw = true

/-- The record is one of the family, and the text is the identifier that it is stored under. -/
def FiledUnder (record : Record) (family : Family) (raw : String) : Prop :=
  record.family = family.code ∧ Uuid.ofText? raw.toList = some record.id

theorem answersTo_iff :
    record.AnswersTo family raw ↔
      record.family = family.code ∧
        ((family.designated? .identifier).bind fun identifier =>
          record.value? identifier.code).any (·.matchesText raw) = true := by
  simp only [AnswersTo, Option.any_eq_true, Option.bind_eq_some_iff]
  refine and_congr_right fun _ => ⟨?_, ?_⟩
  · rintro ⟨identifier, held, hidentifier, hheld, hmatches⟩
    exact ⟨held, ⟨identifier, hidentifier, hheld⟩, hmatches⟩
  · rintro ⟨held, ⟨identifier, hidentifier, hheld⟩, hmatches⟩
    exact ⟨identifier, held, hidentifier, hheld, hmatches⟩

instance (record : Record) (family : Family) (raw : String) :
    Decidable (record.AnswersTo family raw) :=
  decidable_of_iff _ answersTo_iff.symm

/-- A record answers to the text that identifies it exactly if there are no blanks around that. -/
theorem answersTo_own_text_iff {identifier : Attribute} {held : String}
    (hidentifier : family.designated? .identifier = some identifier)
    (hfamily : record.family = family.code)
    (hheld : record.value? identifier.code = some (.text held)) :
    record.AnswersTo family held ↔ Text.Trimmed Text.isBlank held.toList := by
  rw [answersTo_iff, hidentifier, Option.bind_some, hheld, Option.any_some,
    Value.matchesText_text_iff_trimmed]
  exact and_iff_right hfamily

/-- No identifier has blanks around it. -/
theorem FiledUnder.trimmed (h : record.FiledUnder family raw) :
    Text.Trimmed Text.isBlank raw.toList := by
  have hnone := Uuid.isBlank_eq_false_of_ofText? h.2
  exact Text.trim_eq_self_iff.1 (Text.trim_eq_self hnone)

end Record

namespace Store

variable {store : Store} {family : Family} {raw : String} {record : Record}

/-- The record is the first one in the order of the store that answers to the text. -/
def FirstAnswering (store : Store) (family : Family) (raw : String) (record : Record) : Prop :=
  record.AnswersTo family raw ∧ ∃ earlier later, store.records = earlier ++ record :: later ∧
    ∀ other ∈ earlier, ¬ other.AnswersTo family raw

/-! ### Both ways -/

theorem findByIdentifierValue_eq (store : Store) (family : Family) (raw : String) :
    store.findByIdentifierValue family raw =
      store.records.find? fun record => record.AnswersTo family raw := by
  rw [findByIdentifierValue]
  cases hidentifier : family.designated? .identifier with
  | none =>
    refine (List.find?_eq_none.2 fun record _ => ?_).symm
    simp [Record.AnswersTo, hidentifier]
  | some identifier =>
    rw [Option.bind_eq_bind, Option.bind_some, ofFamily, List.find?_filter]
    congr 1
    funext record
    simp [Record.answersTo_iff, hidentifier]

theorem findByIdentifierValue_eq_some_iff :
    store.findByIdentifierValue family raw = some record ↔
      store.FirstAnswering family raw record := by
  simp [findByIdentifierValue_eq, List.find?_eq_some_iff_append, FirstAnswering]

theorem findByIdentifierValue_eq_none_iff :
    store.findByIdentifierValue family raw = none ↔
      ∀ record ∈ store.records, ¬ record.AnswersTo family raw := by
  simp [findByIdentifierValue_eq]

/-- The other way finds the record that is stored under the text. -/
theorem findById_eq_some_iff :
    store.findById family raw = some record ↔
      record ∈ store.records ∧ record.FiledUnder family raw := by
  simp only [findById, Record.FiledUnder, bind, Option.bind_eq_some_iff, Option.filter_eq_some_iff,
    get?_eq_some_iff, beq_iff_eq]
  constructor
  · rintro ⟨id, hid, ⟨hstored, rfl⟩, hfamily⟩
    exact ⟨hstored, hfamily, hid⟩
  · rintro ⟨hstored, hfamily, hid⟩
    exact ⟨record.id, hid, ⟨hstored, rfl⟩, hfamily⟩

theorem findById_eq_none_iff :
    store.findById family raw = none ↔
      ∀ record ∈ store.records, ¬ record.FiledUnder family raw := by
  simp only [Option.eq_none_iff_forall_ne_some, ne_eq, findById_eq_some_iff, not_and]

/-! ### The look-up -/

theorem FirstAnswering.mem (h : store.FirstAnswering family raw record) :
    record ∈ store.records := by
  obtain ⟨-, earlier, later, hrecords, -⟩ := h
  rw [hrecords]
  exact List.mem_append_right _ List.mem_cons_self

theorem exists_firstAnswering (h : ∃ record ∈ store.records, record.AnswersTo family raw) :
    ∃ first, store.FirstAnswering family raw first := by
  simp only [← findByIdentifierValue_eq_some_iff, ← Option.isSome_iff_exists]
  rw [Option.isSome_iff_ne_none, ne_eq, findByIdentifierValue_eq_none_iff]
  exact fun hnone => h.elim fun record hrecord => hnone record hrecord.1 hrecord.2

theorem findByIdentifier_of_firstAnswering (h : store.FirstAnswering family raw record) :
    store.findByIdentifier family raw = some record := by
  rw [findByIdentifier, findByIdentifierValue_eq_some_iff.2 h, Option.some_or]

/-- The identifiers that records are stored under count if no record answers to the text. -/
theorem findByIdentifier_of_forall_not_answersTo
    (h : ∀ record ∈ store.records, ¬ record.AnswersTo family raw) :
    store.findByIdentifier family raw = store.findById family raw := by
  rw [findByIdentifier, findByIdentifierValue_eq_none_iff.2 h, Option.none_or]

theorem findByIdentifier_eq_none_iff :
    store.findByIdentifier family raw = none ↔
      ∀ record ∈ store.records,
        ¬ record.AnswersTo family raw ∧ ¬ record.FiledUnder family raw := by
  rw [findByIdentifier, Option.or_eq_none_iff, findByIdentifierValue_eq_none_iff,
    findById_eq_none_iff]
  exact forall₂_and.symm

/-- What is found by a text: a record of the family, the first one that answers to the text, or if
there is none the one that is stored under it; and nothing exactly if there is neither. -/
structure LooksUp (store : Store) (family : Family) (raw : String) (found : Option Record) :
    Prop where
  of_family : ∀ record ∈ found, record ∈ store.records ∧ record.family = family.code
  of_value : (∃ record ∈ store.records, record.AnswersTo family raw) →
    ∃ first, store.FirstAnswering family raw first ∧ found = some first
  of_id : (∀ record ∈ store.records, ¬ record.AnswersTo family raw) →
    ∀ record, found = some record ↔ record ∈ store.records ∧ record.FiledUnder family raw
  none_iff : found = none ↔
    ∀ record ∈ store.records, ¬ record.AnswersTo family raw ∧ ¬ record.FiledUnder family raw

/-- **The look-up of a record.** Whatever the store and the family, a text finds the first record of
the family that answers to it, even if another record is stored under it; it finds the record of the
family that is stored under it if none answers to it; and else it finds nothing. -/
theorem looksUp_findByIdentifier (store : Store) (family : Family) (raw : String) :
    store.LooksUp family raw (store.findByIdentifier family raw) where
  of_family record hrecord := by
    rw [Option.mem_def, findByIdentifier, Option.or_eq_some_iff] at hrecord
    rcases hrecord with hfirst | ⟨-, hfiled⟩
    · have hfirst := findByIdentifierValue_eq_some_iff.1 hfirst
      exact ⟨hfirst.mem, hfirst.1.1⟩
    · obtain ⟨hstored, hfiled⟩ := findById_eq_some_iff.1 hfiled
      exact ⟨hstored, hfiled.1⟩
  of_value h := by
    obtain ⟨first, hfirst⟩ := exists_firstAnswering h
    exact ⟨first, hfirst, findByIdentifier_of_firstAnswering hfirst⟩
  of_id h record := by
    rw [findByIdentifier_of_forall_not_answersTo h, findById_eq_some_iff]
  none_iff := findByIdentifier_eq_none_iff

/-- A product with the text of another product's identifier for its article number. -/
def renumbered : Record where
  id := Catalog.recordId 6
  family := "Product"
  values := [("sku", .text (String.ofList (Catalog.recordId 3).text))]

/-- The family of products, as it is built from its settings. -/
def products : Family :=
  .ofSettings "Product" Catalog.product (by decide +kernel)

/-- The text finds the product that answers to it, and not the one that is stored under it. -/
example : ((Catalog.store.insert renumbered).findByIdentifier products
    (String.ofList (Catalog.recordId 3).text)).map Record.id = some renumbered.id := by
  decide +kernel

/-! ### Identifying texts -/

/-- **Own texts.** Let a record be identified by a text. Looked up by it, a record is found that
answers to it exactly if there are no blanks around the text, or if another record answers to it; and
nothing is found in all other cases. -/
theorem own_text_found_iff {identifier : Attribute} {held : String}
    (hidentifier : family.designated? .identifier = some identifier)
    (hstored : record ∈ store.records) (hfamily : record.family = family.code)
    (hheld : record.value? identifier.code = some (.text held)) :
    ((∃ found, store.findByIdentifier family held = some found ∧ found.AnswersTo family held) ↔
      Text.Trimmed Text.isBlank held.toList ∨
        ∃ other ∈ store.records, other ≠ record ∧ other.AnswersTo family held) ∧
    (store.findByIdentifier family held = none ↔
      ¬ (Text.Trimmed Text.isBlank held.toList ∨
        ∃ other ∈ store.records, other ≠ record ∧ other.AnswersTo family held)) := by
  have hown := Record.answersTo_own_text_iff hidentifier hfamily hheld
  have hanswers : (∃ other ∈ store.records, other.AnswersTo family held) ↔
      Text.Trimmed Text.isBlank held.toList ∨
        ∃ other ∈ store.records, other ≠ record ∧ other.AnswersTo family held := by
    constructor
    · rintro ⟨other, hother, hanswer⟩
      by_cases heq : other = record
      · exact .inl (hown.1 (heq ▸ hanswer))
      · exact .inr ⟨other, hother, heq, hanswer⟩
    · rintro (htrimmed | ⟨other, hother, -, hanswer⟩)
      · exact ⟨record, hstored, hown.2 htrimmed⟩
      · exact ⟨other, hother, hanswer⟩
  have hlooks := looksUp_findByIdentifier store family held
  rw [← hanswers]
  constructor
  · constructor
    · rintro ⟨found, hfound, hanswer⟩
      exact ⟨found, (hlooks.of_family found hfound).1, hanswer⟩
    · intro h
      obtain ⟨first, hfirst, hfound⟩ := hlooks.of_value h
      exact ⟨first, hfound, hfirst.1⟩
  · rw [hlooks.none_iff]
    constructor
    · rintro h ⟨other, hother, hanswer⟩
      exact (h other hother).1 hanswer
    · intro h other hother
      refine ⟨fun hanswer => h ⟨other, hother, hanswer⟩, fun hfiled => ?_⟩
      -- the text would have no blanks around it, and then the record itself answers to it
      exact h (hanswers.2 (.inl hfiled.trimmed))

theorem exists_identifier_products :
    ∃ identifier, products.designated? .identifier = some identifier ∧ identifier.code = "sku" := by
  have hcode : (products.designated? .identifier).map Attribute.code = some "sku" := by
    decide +kernel
  exact Option.map_eq_some_iff.1 hcode

/-- The running shoe of the catalog is found by its article number. -/
theorem shoe_found_by_own_number :
    ∃ identifier shoe, products.designated? .identifier = some identifier ∧
      (shoe ∈ Catalog.store.records ∧ shoe.family = products.code ∧
        shoe.value? identifier.code = some (.text "SHOE-1")) ∧
      ∃ found, Catalog.store.findByIdentifier products "SHOE-1" = some found ∧
        found.AnswersTo products "SHOE-1" := by
  obtain ⟨identifier, hidentifier, hcode⟩ := exists_identifier_products
  have hshoe : ∃ shoe ∈ Catalog.store.records, shoe.family = products.code ∧
      shoe.value? "sku" = some (.text "SHOE-1") := by
    decide +kernel
  obtain ⟨shoe, hstored, hfamily, hheld⟩ := hshoe
  rw [← hcode] at hheld
  exact ⟨identifier, shoe, hidentifier, ⟨hstored, hfamily, hheld⟩,
    (own_text_found_iff hidentifier hstored hfamily hheld).1.2 (.inl (by decide))⟩

/-- A product whose article number was stored with blanks around it. -/
def padded : Record where
  id := Catalog.recordId 7
  family := "Product"
  values := [("sku", .text " HAT-2 ")]

/-- It is not found by its own article number. -/
theorem padded_number_not_found :
    (∃ identifier, products.designated? .identifier = some identifier ∧
      padded.value? identifier.code = some (.text " HAT-2 ")) ∧
    padded ∈ (empty.insert padded).records ∧ padded.family = products.code ∧
    (empty.insert padded).findByIdentifier products " HAT-2 " = none := by
  obtain ⟨identifier, hidentifier, hcode⟩ := exists_identifier_products
  refine ⟨⟨identifier, hidentifier, ?_⟩, by decide +kernel, rfl, by decide +kernel⟩
  rw [hcode]
  rfl

end Store

end AttributeFilter
