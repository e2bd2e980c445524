import AttributeFilter.Text.Blank
import AttributeFilter.Uuid

/-!
# The text of an identifier

An identifier is read back from its text: the hyphens part the digits into their groups, and the
digits give the number. Whatever is read as an identifier is made of digits, hyphens, braces and the
mark of a resource name, so there is no blank in it.

## Main definitions

* `Uuid.groups`: the digits of an identifier in groups.

## Main results

* `Numeral.hexadecimal?_fixed`: the last digits of a number are read as what is left of it.
* `Uuid.ofText?_text`: an identifier is read back from its text.
* `Uuid.isBlank_eq_false_of_ofText?`: there is no blank in what is read as an identifier.
-/

namespace AttributeFilter

namespace Numeral

theorem hexDigit?_digitChar : ∀ digit ∈ List.range 16,
    hexDigit? (Nat.digitChar digit) = some digit ∧ Nat.digitChar digit ≠ '-' := by
  decide

theorem mod_mem_range (number : Nat) : number % 16 ∈ List.range 16 :=
  List.mem_range.2 (Nat.mod_lt number (by decide))

/-- The last digits of a number are those of the number without its last one, and that one. -/
theorem exists_values_fixed : (width number : Nat) →
    ∃ values, (fixed 16 width number).mapM hexDigit? = some values ∧
      ofDigits 16 values = number % power 16 width
  | 0, number => ⟨[], rfl, (Nat.mod_one number).symm⟩
  | width + 1, number => by
    obtain ⟨values, hvalues, hnumber⟩ := exists_values_fixed width (number / 16)
    refine ⟨values ++ [number % 16], ?_, ?_⟩
    · rw [fixed, List.mapM_append, hvalues]
      simp [(hexDigit?_digitChar _ (mod_mem_range number)).1]
    · have hpower : power 16 (width + 1) = 16 * power 16 width := Nat.mul_comm _ _
      rw [ofDigits] at hnumber
      rw [ofDigits, List.foldl_append, hnumber, hpower, Nat.mod_mul]
      simp [Nat.mul_comm, Nat.add_comm]

/-- The last digits of a number are read as what is left of it. -/
theorem hexadecimal?_fixed (width number : Nat) :
    hexadecimal? (fixed 16 width number) = some (number % power 16 width) := by
  obtain ⟨values, hvalues, hnumber⟩ := exists_values_fixed width number
  rw [hexadecimal?, hvalues, Option.map_some, hnumber]

theorem hyphen_notMem_fixed : (width number : Nat) → '-' ∉ fixed 16 width number
  | 0, number => List.not_mem_nil
  | width + 1, number => by
    rw [fixed, List.mem_append, List.mem_singleton, not_or]
    exact ⟨hyphen_notMem_fixed width (number / 16),
      (hexDigit?_digitChar _ (mod_mem_range number)).2.symm⟩

theorem isBlank_eq_false_of_hexDigit? {c : Char} (h : (hexDigit? c).isSome = true) :
    Text.isBlank c = false := by
  have hbounds : ('0' ≤ c ∧ c ≤ '9') ∨ ('a' ≤ c ∧ c ≤ 'f') ∨ 'A' ≤ c ∧ c ≤ 'F' := by
    unfold hexDigit? at h
    split at h
    · next hdecimal => exact .inl hdecimal
    split at h
    · next hlower => exact .inr (.inl hlower)
    split at h
    · next hupper => exact .inr (.inr hupper)
    · cases h
  rcases hbounds with ⟨hlow, hhigh⟩ | ⟨hlow, hhigh⟩ | ⟨hlow, hhigh⟩ <;>
    exact Text.isBlank_eq_false (Nat.le_trans (by decide) hlow) (Nat.le_trans hhigh (by decide))

/-- Whatever is read as a hexadecimal number is made of digits. -/
theorem isSome_hexDigit?_of_mapM : {text : List Char} → {values : List Nat} →
    text.mapM hexDigit? = some values → ∀ c ∈ text, (hexDigit? c).isSome = true
  | [], _, _ => by simp
  | first :: text, values, h => by
    simp only [List.mapM_cons, bind, Option.bind_eq_some_iff] at h
    obtain ⟨value, hvalue, rest, hrest, -⟩ := h
    intro c hc
    rcases List.mem_cons.1 hc with rfl | hc
    · rw [hvalue, Option.isSome_some]
    · exact isSome_hexDigit?_of_mapM hrest c hc

end Numeral

theorem Text.mem_intercalate {separator : List Char} {c : Char} : {parts : List (List Char)} →
    c ∈ separator.intercalate parts → c ∈ separator ∨ c ∈ parts.flatten
  | [], h => by simp at h
  | [part], h => by
    rw [List.intercalate_singleton] at h
    exact .inr (by simpa using h)
  | first :: second :: rest, h => by
    rw [List.intercalate_cons_cons, List.mem_append, List.mem_append] at h
    rcases h with (h | h) | h
    · exact .inr (List.mem_append_left _ h)
    · exact .inl h
    · exact (mem_intercalate h).imp_right (List.mem_append_right _)

namespace Uuid

def groups (id : Uuid) : List (List Char) :=
  let digits := Numeral.fixed 16 32 id.bits.toNat
  [digits.take 8, (digits.drop 8).take 4, (digits.drop 12).take 4, (digits.drop 16).take 4,
    digits.drop 20]

theorem text_eq_intercalate (id : Uuid) : id.text = ['-'].intercalate id.groups := by
  simp [text, groups, List.intercalate]

theorem flatten_groups (id : Uuid) : id.groups.flatten = Numeral.fixed 16 32 id.bits.toNat := by
  have hlater (start : Nat) : ((Numeral.fixed 16 32 id.bits.toNat).drop start).take 4 ++
      (Numeral.fixed 16 32 id.bits.toNat).drop (start + 4) =
        (Numeral.fixed 16 32 id.bits.toNat).drop start := by
    rw [← List.drop_drop, List.take_append_drop]
  simp [groups, hlater]

theorem length_groups (id : Uuid) : id.groups.map List.length = [8, 4, 4, 4, 12] := by
  simp [groups, Numeral.length_fixed]

theorem hyphen_notMem_groups (id : Uuid) : ∀ group ∈ id.groups, '-' ∉ group := by
  intro group hgroup hhyphen
  refine Numeral.hyphen_notMem_fixed 32 id.bits.toNat ?_
  rw [← flatten_groups]
  exact List.mem_flatten_of_mem hgroup hhyphen

theorem ofDigits?_flatten_groups (id : Uuid) : ofDigits? id.groups.flatten = some id := by
  have hbits : id.bits.toNat % Numeral.power 16 32 = id.bits.toNat := Nat.mod_eq_of_lt id.bits.isLt
  rw [flatten_groups, ofDigits?, if_pos (Numeral.length_fixed ..), Numeral.hexadecimal?_fixed,
    hbits, Option.map_some, ofNat, BitVec.ofNat_toNat, BitVec.setWidth_eq]

theorem length_text (id : Uuid) : id.text.length = 36 := by
  simp [text, Numeral.length_fixed]

theorem ofText?_text (id : Uuid) : ofText? id.text = some id := by
  have hlength := id.length_text
  have hgroups : id.text.splitOn '-' = id.groups := by
    rw [text_eq_intercalate]
    exact List.splitOn_intercalate '-' id.hyphen_notMem_groups (List.cons_ne_nil _ _)
  rw [ofText?, hlength, if_neg (by decide), if_pos rfl, ofGroups?, hgroups, length_groups,
    if_pos rfl, ofDigits?_flatten_groups]

/-! ### What is read as an identifier -/

variable {text : List Char} {id : Uuid}

theorem isBlank_eq_false_of_ofDigits? (h : ofDigits? text = some id) :
    ∀ c ∈ text, Text.isBlank c = false := by
  rw [ofDigits?] at h
  split at h
  · obtain ⟨number, hnumber, -⟩ := Option.map_eq_some_iff.1 h
    obtain ⟨values, hvalues, -⟩ := Option.map_eq_some_iff.1 hnumber
    intro c hc
    exact Numeral.isBlank_eq_false_of_hexDigit? (Numeral.isSome_hexDigit?_of_mapM hvalues c hc)
  · cases h

/-- Between the digits of the groups stand hyphens. -/
theorem isBlank_eq_false_of_ofGroups? (h : ofGroups? text = some id) :
    ∀ c ∈ text, Text.isBlank c = false := by
  rw [ofGroups?] at h
  split at h
  · have hparts : ['-'].intercalate (text.splitOn '-') = text := List.intercalate_splitOn '-'
    intro c hc
    rw [← hparts] at hc
    rcases Text.mem_intercalate hc with hc | hc
    · rw [List.mem_singleton.1 hc]
      rfl
    · exact isBlank_eq_false_of_ofDigits? h c hc
  · cases h

/-- What stands between the braces are groups. -/
theorem isBlank_eq_false_of_braces (hlength : text.length = 38) (hfirst : text.head? = some '\x7b')
    (hlast : text.getLast? = some '\x7d') (h : ofGroups? ((text.drop 1).take 36) = some id) :
    ∀ c ∈ text, Text.isBlank c = false := by
  obtain ⟨rest, rfl⟩ := List.head?_eq_some_iff.1 hfirst
  have hrest : rest ≠ [] := by
    rintro rfl
    contradiction
  rw [List.getLast?_cons_of_ne_nil hrest] at hlast
  obtain ⟨inner, rfl⟩ := List.getLast?_eq_some_iff.1 hlast
  have hinner : inner.length = 36 := by simpa using hlength
  rw [List.drop_one, List.tail_cons, List.take_left' hinner] at h
  intro c hc
  simp only [List.mem_cons, List.mem_append, List.not_mem_nil, or_false] at hc
  rcases hc with rfl | hc | rfl
  · rfl
  · exact isBlank_eq_false_of_ofGroups? h c hc
  · rfl

/-- The mark of a resource name is made of letters and colons, in any case. -/
theorem isBlank_eq_false_of_urnMark (hmark : (text.take 9).map Char.toLower = urnMark)
    (h : ofGroups? (text.drop 9) = some id) : ∀ c ∈ text, Text.isBlank c = false := by
  have hsigns : urnMark.all (!Text.isBlank ·) = true := by decide
  simp only [List.all_eq_true, Bool.not_eq_true'] at hsigns
  intro c hc
  rw [← List.take_append_drop 9 text, List.mem_append] at hc
  rcases hc with hc | hc
  · have hlower := hsigns c.toLower (hmark ▸ List.mem_map_of_mem hc)
    unfold Char.toLower at hlower
    split at hlower
    · next hupper =>
      exact Text.isBlank_eq_false (Nat.le_trans (by decide) hupper.1)
        (Nat.le_trans hupper.2 (by decide))
    · exact hlower
  · exact isBlank_eq_false_of_ofGroups? h c hc

/-- There is no blank in what is read as an identifier, whatever form it has. -/
theorem isBlank_eq_false_of_ofText? (h : ofText? text = some id) :
    ∀ c ∈ text, Text.isBlank c = false := by
  rw [ofText?] at h
  split at h
  · exact isBlank_eq_false_of_ofDigits? h
  split at h
  · exact isBlank_eq_false_of_ofGroups? h
  split at h
  · next hlength =>
    split at h
    · next hbraces => exact isBlank_eq_false_of_braces hlength hbraces.1 hbraces.2 h
    · cases h
  split at h
  · split at h
    · next hmark => exact isBlank_eq_false_of_urnMark hmark h
    · cases h
  · cases h

end Uuid

end AttributeFilter
