/-!
# Blanks and trimming

Texts that come with a request are compared without the blanks around them, and search values
lose the wildcards at their ends. Both are the same operation, trimming by a class of characters.

## Main definitions

* `Text.isBlank`: the characters with the Unicode property `White_Space`.
* `Text.trimStart`, `Text.trimEnd`, `Text.trim`: dropping the characters of a class at the front,
  at the back, and at both ends.

## Main results

* `Text.isBlank_eq_false`: no printed ASCII character is a blank.
-/

namespace AttributeFilter.Text

/-- The characters with the Unicode property `White_Space`. -/
def isBlank (c : Char) : Bool :=
  let n := c.toNat
  (9 ≤ n && n ≤ 13) || n == 0x20 || n == 0x85 || n == 0xA0 || n == 0x1680 ||
    (0x2000 ≤ n && n ≤ 0x200A) || n == 0x2028 || n == 0x2029 || n == 0x202F || n == 0x205F ||
    n == 0x3000

/-- No printed ASCII character is a blank. -/
theorem isBlank_eq_false {c : Char} (hlow : 0x21 ≤ c.toNat) (hhigh : c.toNat ≤ 0x7E) :
    isBlank c = false := by
  simp only [isBlank, Bool.or_eq_false_iff, Bool.and_eq_false_iff, decide_eq_false_iff_not,
    beq_eq_false_iff_ne]
  omega

def trimStart (p : Char → Bool) (text : List Char) : List Char :=
  text.dropWhile p

def trimEnd (p : Char → Bool) (text : List Char) : List Char :=
  (text.reverse.dropWhile p).reverse

/-- The text without the characters of the class at either end. -/
def trim (p : Char → Bool) (text : List Char) : List Char :=
  trimEnd p (trimStart p text)

end AttributeFilter.Text
