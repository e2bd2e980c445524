import AttributeFilter.Proofs.Number.Rounding
import AttributeFilter.Record.Value

/-!
# Comparing stored values

Values of one kind are comparable with each other and with no other value, where integers and
decimals are one kind. Nothing is comparable with not-a-number or with a list of references. Within
each kind the comparison is an order, but for one case: two integers are compared as they are, while
an integer is rounded to be compared with a decimal, so that a decimal may be equal to two integers
that differ.

## Main definitions

* `Value.kind?`: the kind of values that a value is comparable with.
* `Value.Faithful`: no decimal is equal to two different integers.
* `Value.Sortable`: values that nothing keeps from being sorted.

## Main results

* `Value.isSome_compare?_iff`: which values are comparable.
* `Value.compare?_swap`: swapping two values swaps the answer.
* `Value.sortable_iff`: values are sortable exactly if comparing them is transitive.
-/

namespace AttributeFilter

/-! ### Dates, instants and identifiers -/

/-- Comparing images is transitive if the comparison is. -/
theorem transCmp_on {α β : Type} (cmp : β → β → Ordering) [Std.TransCmp cmp] (image : α → β) :
    Std.TransCmp fun a b => cmp (image a) (image b) where
  eq_swap := Std.OrientedCmp.eq_swap
  isLE_trans := Std.TransCmp.isLE_trans

instance : Std.TransCmp Date.compare :=
  inferInstanceAs (Std.TransCmp (compareLex (compareOn Date.year)
    (compareLex (compareOn Date.month) (compareOn Date.day))))

instance : Std.TransCmp Instant.compare :=
  have := transCmp_on Date.compare Instant.date
  inferInstanceAs (Std.TransCmp (compareLex (fun a b : Instant => a.date.compare b.date)
    (compareLex (compareOn Instant.second) (compareOn Instant.nanosecond))))

instance : Std.TransCmp Uuid.compare :=
  inferInstanceAs (Std.TransCmp (compareOn fun id : Uuid => id.bits.toNat))

namespace Value

/-! ### Kinds -/

/-- A kind of values that are comparable with each other. -/
inductive Kind
  | number
  | boolean
  | text
  | date
  | instant
  | reference
  deriving DecidableEq, Repr

/-- The kind of a value; not-a-number and lists of references have none. -/
def kind? : Value → Option Kind
  | integer _ => some .number
  | decimal value => if value = .nan then none else some .number
  | boolean _ => some .boolean
  | text _ => some .text
  | date _ => some .date
  | instant _ => some .instant
  | reference _ => some .reference
  | references _ => none

theorem eq_of_kind? {value : Value} {kind : Kind} (h : value.kind? = some kind) :
    match kind with
    | .number => (∃ n, value = integer n) ∨ ∃ x, value = decimal x ∧ x ≠ .nan
    | .boolean => ∃ b, value = boolean b
    | .text => ∃ t, value = text t
    | .date => ∃ d, value = date d
    | .instant => ∃ i, value = instant i
    | .reference => ∃ id, value = reference id := by
  cases value with
  | integer n =>
    cases h
    exact .inl ⟨n, rfl⟩
  | decimal x =>
    by_cases hx : x = .nan
    · simp [kind?, hx] at h
    · rw [kind?, if_neg hx] at h
      cases h
      exact .inr ⟨x, rfl, hx⟩
  | references ids => cases h
  | _ =>
    cases h
    exact ⟨_, rfl⟩

theorem compare?_swap (a b : Value) : b.compare? a = (a.compare? b).map Ordering.swap := by
  cases a <;> cases b <;>
    first
    | rfl
    | exact congrArg some Std.OrientedCmp.eq_swap
    | exact Binary64.compare?_swap _ _

theorem compare?_eq_gt_iff {a b : Value} : a.compare? b = some .gt ↔ b.compare? a = some .lt := by
  rw [compare?_swap a b]
  cases a.compare? b with
  | none => simp
  | some ordering => cases ordering <;> simp

/-- A value lies to itself as equal, if it is comparable at all. -/
theorem compare?_self_ne (a : Value) : a.compare? a ≠ some .lt ∧ a.compare? a ≠ some .gt := by
  have h := compare?_swap a a
  cases hself : a.compare? a with
  | none => simp
  | some ordering => cases ordering <;> simp [hself] at h ⊢

/-! ### Numbers -/

/-- What a number stands for when it is compared with a decimal. -/
def magnitude? : Value → Option (WithBot (WithTop ℚ))
  | integer n => (Binary64.ofInt n.toInt).value?
  | decimal x => x.value?
  | _ => none

theorem magnitude?_integer (n : Int64) :
    (integer n).magnitude? =
      some (((Binary64.nearest n.toInt : ℚ) : WithTop ℚ) : WithBot (WithTop ℚ)) :=
  Binary64.value?_ofInt (Binary64.log2_natAbs_toInt_lt n)

theorem exists_magnitude?_eq {a : Value} (h : a.kind? = some .number) :
    ∃ p, a.magnitude? = some p := by
  rcases eq_of_kind? h with ⟨n, rfl⟩ | ⟨x, rfl, hx⟩
  · exact ⟨_, magnitude?_integer n⟩
  · exact Option.ne_none_iff_exists'.1 (mt Binary64.value?_eq_none_iff.1 hx)

theorem compare?_integer_ne_gt_iff {m n : Int64} :
    (integer m).compare? (integer n) ≠ some .gt ↔ m.toInt ≤ n.toInt := by
  rw [compare?, ne_eq, Option.some.injEq]
  exact compare_le_iff_le

/-- Two numbers of which one is a decimal lie to each other as what they stand for. -/
theorem compare?_eq_of_magnitude? {a b : Value} {p q : WithBot (WithTop ℚ)}
    (hdecimal : (∃ x, a = decimal x) ∨ ∃ x, b = decimal x) (ha : a.magnitude? = some p)
    (hb : b.magnitude? = some q) : a.compare? b = some (compare p q) := by
  cases a with
  | integer m =>
    cases b with
    | integer n => simp at hdecimal
    | decimal y => exact Binary64.compare?_eq ha hb
    | _ => cases hb
  | decimal x =>
    cases b with
    | integer n => exact Binary64.compare?_eq ha hb
    | decimal y => exact Binary64.compare?_eq ha hb
    | _ => cases hb
  | _ => cases ha

/-- A number that does not come after another one stands for no more: rounding keeps the order. -/
theorem magnitude_le {a b : Value} {p q : WithBot (WithTop ℚ)} (ha : a.magnitude? = some p)
    (hb : b.magnitude? = some q) (h : a.compare? b ≠ some .gt) : p ≤ q := by
  by_cases hdecimal : (∃ x, a = decimal x) ∨ ∃ x, b = decimal x
  · rw [compare?_eq_of_magnitude? hdecimal ha hb] at h
    exact compare_le_iff_le.1 fun hgt => h (congrArg some hgt)
  · cases a with
    | integer m =>
      cases b with
      | integer n =>
        rw [magnitude?_integer] at ha hb
        cases ha
        cases hb
        have hle := Binary64.nearest_mono (compare?_integer_ne_gt_iff.1 h)
        exact WithBot.coe_le_coe.2 (WithTop.coe_le_coe.2 (Int.cast_le.2 hle))
      | decimal y => exact absurd (.inr ⟨y, rfl⟩) hdecimal
      | _ => cases hb
    | decimal x => exact absurd (.inl ⟨x, rfl⟩) hdecimal
    | _ => cases ha

theorem isSome_compare?_iff {a b : Value} :
    (a.compare? b).isSome = true ↔ ∃ kind, a.kind? = some kind ∧ b.kind? = some kind := by
  have hof (n : Int64) : Binary64.ofInt n.toInt ≠ .nan := fun h => by
    have hvalue := magnitude?_integer n
    rw [magnitude?, h] at hvalue
    cases hvalue
  cases a <;> cases b <;>
    simp [compare?, kind?, Binary64.isSome_compare?_iff, hof, and_comm]

/-! ### Transitivity -/

/-- Comparing numbers is transitive, unless a decimal in the middle is equal to two integers. -/
theorem number_trans {a b c : Value} (ha : a.kind? = some .number) (hb : b.kind? = some .number)
    (hc : c.kind? = some .number)
    (hfaithful : ∀ x m n, a = integer m → b = decimal x → c = integer n →
      x.equals (.ofInt m.toInt) = true → x.equals (.ofInt n.toInt) = true → m = n)
    (hab : a.compare? b ≠ some .gt) (hbc : b.compare? c ≠ some .gt) : a.compare? c ≠ some .gt := by
  obtain ⟨p, hp⟩ := exists_magnitude?_eq ha
  obtain ⟨q, hq⟩ := exists_magnitude?_eq hb
  obtain ⟨r, hr⟩ := exists_magnitude?_eq hc
  have hpq := magnitude_le hp hq hab
  have hqr := magnitude_le hq hr hbc
  by_cases hdecimal : (∃ x, a = decimal x) ∨ ∃ x, c = decimal x
  · rw [compare?_eq_of_magnitude? hdecimal hp hr]
    exact fun h => compare_le_iff_le.2 (hpq.trans hqr) (Option.some.inj h)
  obtain ⟨m, rfl⟩ := (eq_of_kind? ha).resolve_right fun ⟨x, h, _⟩ => hdecimal (.inl ⟨x, h⟩)
  obtain ⟨n, rfl⟩ := (eq_of_kind? hc).resolve_right fun ⟨x, h, _⟩ => hdecimal (.inr ⟨x, h⟩)
  intro hgt
  rcases eq_of_kind? hb with ⟨k, rfl⟩ | ⟨x, rfl, -⟩
  · rw [compare?_integer_ne_gt_iff] at hab hbc
    exact compare?_integer_ne_gt_iff.2 (hab.trans hbc) hgt
  · -- Rounding keeps the order, so that both integers are rounded to what the decimal stands for.
    have hrp := magnitude_le hr hp (by rw [compare?_swap, hgt]; decide)
    have hpq : p = q := le_antisymm hpq (hqr.trans hrp)
    have hqr : q = r := le_antisymm hqr (hrp.trans hpq.le)
    have hequals (k : Int64) (hk : (integer k).magnitude? = some q) :
        x.equals (.ofInt k.toInt) = true := by
      rw [Binary64.equals, Binary64.compare?_eq hq hk, compare_eq_iff_eq.2 rfl]
      rfl
    cases hfaithful x m n rfl rfl rfl (hequals m (hpq ▸ hp)) (hequals n (hqr ▸ hr))
    exact (compare?_self_ne _).2 hgt

/-- Comparing values that are made of something is transitive if comparing that is. -/
theorem compare?_trans_of_cmp {α : Type} {make : α → Value} (cmp : α → α → Ordering)
    [Std.TransCmp cmp] (hmake : ∀ x y, (make x).compare? (make y) = some (cmp x y)) {a b c : Value}
    (ha : ∃ x, a = make x) (hb : ∃ x, b = make x) (hc : ∃ x, c = make x)
    (hab : a.compare? b ≠ some .gt) (hbc : b.compare? c ≠ some .gt) : a.compare? c ≠ some .gt := by
  obtain ⟨x, rfl⟩ := ha
  obtain ⟨y, rfl⟩ := hb
  obtain ⟨z, rfl⟩ := hc
  simp only [hmake, ne_eq, Option.some.injEq, Ordering.ne_gt_iff_isLE] at hab hbc ⊢
  exact Std.TransCmp.isLE_trans hab hbc

/-- Comparing values of one kind is transitive, with the same exception. -/
theorem kind_trans {a b c : Value} {kind : Kind} (ha : a.kind? = some kind)
    (hb : b.kind? = some kind) (hc : c.kind? = some kind)
    (hfaithful : ∀ x m n, a = integer m → b = decimal x → c = integer n →
      x.equals (.ofInt m.toInt) = true → x.equals (.ofInt n.toInt) = true → m = n)
    (hab : a.compare? b ≠ some .gt) (hbc : b.compare? c ≠ some .gt) : a.compare? c ≠ some .gt := by
  have ha' := eq_of_kind? ha
  have hb' := eq_of_kind? hb
  have hc' := eq_of_kind? hc
  cases kind with
  | number => exact number_trans ha hb hc hfaithful hab hbc
  | boolean => exact compare?_trans_of_cmp compare (fun _ _ => rfl) ha' hb' hc' hab hbc
  | text => exact compare?_trans_of_cmp compare (fun _ _ => rfl) ha' hb' hc' hab hbc
  | date => exact compare?_trans_of_cmp Date.compare (fun _ _ => rfl) ha' hb' hc' hab hbc
  | instant => exact compare?_trans_of_cmp Instant.compare (fun _ _ => rfl) ha' hb' hc' hab hbc
  | reference => exact compare?_trans_of_cmp Uuid.compare (fun _ _ => rfl) ha' hb' hc' hab hbc

/-! ### Sorting -/

variable {values : List Value}

/-- No decimal among the values is equal to two different integers. -/
def Faithful (values : List Value) : Prop :=
  ∀ x m n, decimal x ∈ values → integer m ∈ values → integer n ∈ values →
    x.equals (.ofInt m.toInt) = true → x.equals (.ofInt n.toInt) = true → m = n

/-- Nothing keeps the values from being sorted: no two of them are told apart, or they are all of
one kind and no decimal blurs a difference of integers. -/
def Sortable (values : List Value) : Prop :=
  (∀ a ∈ values, ∀ b ∈ values, a.compare? b ≠ some .lt) ∨
    (∃ kind, ∀ value ∈ values, value.kind? = some kind) ∧ Faithful values

def Transitive (values : List Value) : Prop :=
  ∀ a ∈ values, ∀ b ∈ values, ∀ c ∈ values,
    a.compare? b ≠ some .gt → b.compare? c ≠ some .gt → a.compare? c ≠ some .gt

theorem transitive_of_sortable (h : Sortable values) : Transitive values := by
  intro a ha b hb c hc hab hbc
  rcases h with htied | ⟨⟨kind, hkind⟩, hfaithful⟩
  · exact fun hgt => htied c hc a ha (compare?_eq_gt_iff.1 hgt)
  · refine kind_trans (hkind a ha) (hkind b hb) (hkind c hc) ?_ hab hbc
    rintro x m n rfl rfl rfl
    exact hfaithful x m n hb ha hc

/-- Two values that are told apart are comparable with all others: one that is not would be between
them in the wrong order. -/
theorem Transitive.kind?_eq (h : Transitive values) {a b : Value} (ha : a ∈ values)
    (hb : b ∈ values) (hlt : a.compare? b = some .lt) :
    ∃ kind, ∀ value ∈ values, value.kind? = some kind := by
  obtain ⟨kind, hakind, hbkind⟩ := isSome_compare?_iff.1 (Option.isSome_of_eq_some hlt)
  refine ⟨kind, fun value hvalue => by_contra fun hkind => ?_⟩
  have hapart {other : Value} (hother : other.kind? = some kind) : other.compare? value = none := by
    rw [← Option.not_isSome_iff_eq_none, isSome_compare?_iff]
    rintro ⟨kind', hother', hvalue'⟩
    exact hkind (hvalue'.trans (hother'.symm.trans hother))
  refine h b hb value hvalue a ha ?_ ?_ (compare?_eq_gt_iff.2 hlt)
  · simp [hapart hbkind]
  · rw [compare?_swap a value, hapart hakind]
    simp

/-- A decimal between two integers that are told apart is not equal to both of them. -/
theorem Transitive.faithful (h : Transitive values) : Faithful values := by
  intro x m n hx hm hn hxm hxn
  have hle {m n : Int64} (hm : integer m ∈ values) (hn : integer n ∈ values)
      (hxm : x.equals (.ofInt m.toInt) = true) (hxn : x.equals (.ofInt n.toInt) = true) :
      m.toInt ≤ n.toInt := by
    rw [Binary64.equals, beq_iff_eq] at hxm hxn
    have hmx : (integer m).compare? (decimal x) = some .eq := by
      rw [compare?_swap (decimal x)]
      exact congrArg (Option.map Ordering.swap) hxm
    have hxn : (decimal x).compare? (integer n) = some .eq := hxn
    refine compare?_integer_ne_gt_iff.1 (h _ hm _ hx _ hn ?_ ?_)
    · simp [hmx]
    · simp [hxn]
  exact Int64.toInt_inj.1 (le_antisymm (hle hm hn hxm hxn) (hle hn hm hxn hxm))

/-- Values are sortable exactly if comparing them is transitive. -/
theorem sortable_iff : Sortable values ↔ Transitive values := by
  refine ⟨transitive_of_sortable, fun h => ?_⟩
  by_cases htied : ∀ a ∈ values, ∀ b ∈ values, a.compare? b ≠ some .lt
  · exact .inl htied
  · push Not at htied
    obtain ⟨a, ha, b, hb, hlt⟩ := htied
    exact .inr ⟨h.kind?_eq ha hb hlt, h.faithful⟩

end Value

end AttributeFilter
