import AttributeFilter.Text.Numeral

/-!
# Universally unique identifiers

Records are stored under identifiers of 128 bits, written as 32 hexadecimal digits.

## Main definitions

* `Uuid`: an identifier.
* `Uuid.text`: lower-case digits in groups of 8, 4, 4, 4 and 12 with hyphens between them.
* `Uuid.ofText?`: reads the grouped form, also in braces or after `urn:uuid:`, and plain digits.
* `Uuid.compare`: the order of the digits.
-/

namespace AttributeFilter

structure Uuid where
  bits : BitVec 128
  deriving DecidableEq, Repr, Inhabited

namespace Uuid

def ofNat (number : Nat) : Uuid :=
  ⟨BitVec.ofNat 128 number⟩

/-- The order of identifiers is that of their digits. -/
def compare (a b : Uuid) : Ordering :=
  Ord.compare a.bits.toNat b.bits.toNat

def text (id : Uuid) : List Char :=
  let digits := Numeral.fixed 16 32 id.bits.toNat
  digits.take 8 ++ '-' :: (digits.drop 8).take 4 ++ '-' :: (digits.drop 12).take 4 ++
    '-' :: (digits.drop 16).take 4 ++ '-' :: digits.drop 20

/-- Reads 32 digits. -/
def ofDigits? (digits : List Char) : Option Uuid :=
  if digits.length = 32 then (Numeral.hexadecimal? digits).map ofNat else none

/-- Reads digits in groups of 8, 4, 4, 4 and 12. -/
def ofGroups? (text : List Char) : Option Uuid :=
  let groups := text.splitOn '-'
  if groups.map List.length = [8, 4, 4, 4, 12] then ofDigits? groups.flatten else none

/-- The mark in front of an identifier that is written as a resource name. -/
def urnMark : List Char := "urn:uuid:".toList

/-- Reads an identifier: 32 digits, or groups that may stand in braces or after `urn:uuid:` in any
case. The length tells the forms apart. -/
def ofText? (text : List Char) : Option Uuid :=
  if text.length = 32 then ofDigits? text
  else if text.length = 36 then ofGroups? text
  else if text.length = 38 then
    if text.head? = some '\x7b' ∧ text.getLast? = some '\x7d' then
      ofGroups? ((text.drop 1).take 36)
    else none
  else if text.length = 45 then
    if (text.take 9).map Char.toLower = urnMark then ofGroups? (text.drop 9) else none
  else none

end Uuid

end AttributeFilter
