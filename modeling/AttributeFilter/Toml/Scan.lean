import AttributeFilter.Text.Numeral

/-!
# Scanning settings files

The smallest pieces of a settings file: blanks, line ends and comments, and quoted texts. A
scanner takes its piece off the front of a text.

## Main definitions

* `Toml.Scan`: scanners.
* `Toml.filler`: passes over blanks, line ends and comments.
* `Toml.quoted`: a quoted text on one line; `Toml.longText` also one over several lines.
* `Toml.escape`: an escaped character.

## Main results

* `Toml.length_escape`, `Toml.length_skipLineEnd`: these scanners do not go back.
-/

namespace AttributeFilter.Toml

/-- Takes a piece off the front of a text, if it is there. -/
abbrev Scan (α : Type) := List Char → Option (α × List Char)

/-- Whether the character is a blank within a line. -/
def isSpace (c : Char) : Bool :=
  c = ' ' || c = '\t'

/-- Whether the character may stand for itself: any but a control character, and the tab. -/
def isTextChar (c : Char) : Bool :=
  c = '\t' || (0x20 ≤ c.toNat && c.toNat ≠ 0x7f)

def skipSpaces (text : List Char) : List Char :=
  text.dropWhile isSpace

/-- The text after one fixed character. -/
def expect (expected : Char) : List Char → Option (List Char)
  | [] => none
  | c :: rest => if c = expected then some rest else none

/-- Passes over blanks, line ends and comments; the flag tells whether the text starts within a
comment. A carriage return must belong to a line end. -/
def filler : Bool → List Char → Option (List Char)
  | _, [] => some []
  | inComment, c :: rest =>
    if c = '\n' then filler false rest
    else if c = '\r' then
      if rest.head? = some '\n' then filler false rest else none
    else if inComment then
      if isTextChar c then filler true rest else none
    else if isSpace c then filler false rest
    else if c = '#' then filler true rest
    else some (c :: rest)

/-- Whether nothing but blanks or a comment is left on the line. -/
def atLineEnd (text : List Char) : Bool :=
  match skipSpaces text with
  | [] => true
  | c :: _ => c = '\n' || c = '\r' || c = '#'

/-! ### Quoted texts -/

def charOf? (number : Nat) : Option Char :=
  if h : number.isValidChar then some (Char.ofNatAux number h) else none

/-- A character given by exactly so many hexadecimal digits. -/
def numbered (width : Nat) (text : List Char) : Option (Char × List Char) :=
  if text.length < width then none
  else ((Numeral.hexadecimal? (text.take width)).bind charOf?).map fun c => (c, text.drop width)

/-- The character that a letter stands for after a backslash. -/
def lettered? (c : Char) : Option Char :=
  if c = 'b' then some '\x08'
  else if c = 't' then some '\t'
  else if c = 'n' then some '\n'
  else if c = 'f' then some '\x0c'
  else if c = 'r' then some '\r'
  else if c = 'e' then some '\x1b'
  else if c = '"' then some '"'
  else if c = '\\' then some '\\'
  else none

/-- The escaped character after a backslash. -/
def escape : Scan Char
  | [] => none
  | c :: rest =>
    if c = 'x' then numbered 2 rest
    else if c = 'u' then numbered 4 rest
    else if c = 'U' then numbered 8 rest
    else (lettered? c).map fun plain => (plain, rest)

theorem length_numbered {width : Nat} {text rest : List Char} {c : Char}
    (h : numbered width text = some (c, rest)) : rest.length ≤ text.length := by
  unfold numbered at h
  split at h
  · simp at h
  · simp only [Option.map_eq_some_iff, Prod.mk.injEq] at h
    obtain ⟨_, _, _, rfl⟩ := h
    simp

/-- An escaped character takes something off the text. -/
theorem length_escape {text rest : List Char} {c : Char} (h : escape text = some (c, rest)) :
    rest.length < text.length := by
  cases text with
  | nil => simp [escape] at h
  | cons first more =>
    rw [List.length_cons, Nat.lt_succ_iff]
    rw [escape] at h
    split at h
    · exact length_numbered h
    · split at h
      · exact length_numbered h
      · split at h
        · exact length_numbered h
        · simp only [Option.map_eq_some_iff, Prod.mk.injEq] at h
          obtain ⟨_, _, _, rfl⟩ := h
          exact Nat.le_refl _

/-- The rest of a text in double quotes, up to the closing one. -/
def basicRest (text : List Char) : Option (List Char × List Char) :=
  match text with
  | [] => none
  | c :: rest =>
    if c = '"' then some ([], rest)
    else if c = '\\' then
      match _h : escape rest with
      | none => none
      | some (escaped, after) =>
        (basicRest after).map fun (inner, rest) => (escaped :: inner, rest)
    else if isTextChar c then (basicRest rest).map fun (inner, rest) => (c :: inner, rest)
    else none
termination_by text.length
decreasing_by
  · have := length_escape _h
    simp only [List.length_cons]
    omega
  · simp

/-- The rest of a text in single quotes, up to the closing one. -/
def literalRest : List Char → Option (List Char × List Char)
  | [] => none
  | c :: rest =>
    if c = '\'' then some ([], rest)
    else if isTextChar c then (literalRest rest).map fun (inner, rest) => (c :: inner, rest)
    else none

/-- A quoted text on one line. -/
def quoted : Scan String
  | '"' :: rest => (basicRest rest).map fun (inner, rest) => (String.ofList inner, rest)
  | '\'' :: rest => (literalRest rest).map fun (inner, rest) => (String.ofList inner, rest)
  | _ => none

/-! ### Texts over several lines -/

/-- The text after a line end. -/
def lineEnd : List Char → Option (List Char)
  | '\n' :: rest => some rest
  | '\r' :: '\n' :: rest => some rest
  | _ => none

/-- The text after blanks and line ends. -/
def skipLines : List Char → List Char
  | [] => []
  | c :: rest =>
    if c = '\n' || isSpace c then skipLines rest
    else if c = '\r' && rest.head? = some '\n' then skipLines rest
    else c :: rest

/-- A backslash at the end of a line joins it with the next line that is not blank. -/
def skipLineEnd (text : List Char) : Option (List Char) :=
  (lineEnd (skipSpaces text)).map skipLines

theorem length_skipLines : (text : List Char) → (skipLines text).length ≤ text.length
  | [] => Nat.le_refl _
  | c :: rest => by
    have ih := length_skipLines rest
    rw [skipLines]
    split
    · rw [List.length_cons]
      omega
    · split
      · rw [List.length_cons]
        omega
      · exact Nat.le_refl _

theorem length_lineEnd {text rest : List Char} (h : lineEnd text = some rest) :
    rest.length < text.length := by
  unfold lineEnd at h
  split at h
  · cases h
    simp
  · cases h
    simp only [List.length_cons]
    omega
  · cases h

theorem length_skipLineEnd {text rest : List Char} (h : skipLineEnd text = some rest) :
    rest.length < text.length := by
  simp only [skipLineEnd, Option.map_eq_some_iff] at h
  obtain ⟨after, hafter, rfl⟩ := h
  have h1 := length_lineEnd hafter
  have h2 := length_skipLines after
  have h3 : (skipSpaces text).length ≤ text.length := (List.dropWhile_sublist isSpace).length_le
  omega

/-- After three closing quotes: up to two more of them belong to the text. -/
def closing (quote : Char) : List Char → List Char × List Char
  | a :: b :: rest =>
    if a = quote then
      if b = quote then ([quote, quote], rest) else ([quote], b :: rest)
    else ([], a :: b :: rest)
  | [a] => if a = quote then ([quote], []) else ([], [a])
  | [] => ([], [])

def startsTriple (quote : Char) (text : List Char) : Bool :=
  text.take 3 = [quote, quote, quote]

/-- Whether a character may stand for itself in a text over several lines. -/
def isLongChar (c : Char) (rest : List Char) : Bool :=
  isTextChar c || c = '\n' || (c = '\r' && rest.head? = some '\n')

/-- The rest of a text over several lines in double quotes. -/
def longBasicRest (text : List Char) : Option (List Char × List Char) :=
  match text with
  | [] => none
  | c :: rest =>
    if startsTriple '"' (c :: rest) then some (closing '"' (rest.drop 2))
    else if c = '\\' then
      match _h : skipLineEnd rest with
      | some after => longBasicRest after
      | none =>
        match _h : escape rest with
        | none => none
        | some (escaped, after) =>
          (longBasicRest after).map fun (inner, rest) => (escaped :: inner, rest)
    else if isLongChar c rest then
      (longBasicRest rest).map fun (inner, rest) => (c :: inner, rest)
    else none
termination_by text.length
decreasing_by
  · have := length_skipLineEnd _h
    simp only [List.length_cons]
    omega
  · have := length_escape _h
    simp only [List.length_cons]
    omega
  · simp

/-- The rest of a text over several lines in single quotes. -/
def longLiteralRest : List Char → Option (List Char × List Char)
  | [] => none
  | c :: rest =>
    if startsTriple '\'' (c :: rest) then some (closing '\'' (rest.drop 2))
    else if isLongChar c rest then
      (longLiteralRest rest).map fun (inner, rest) => (c :: inner, rest)
    else none

/-- The text after a line end, if it starts with one. -/
def dropLineEnd (text : List Char) : List Char :=
  (lineEnd text).getD text

/-- A quoted text. Three quotes open one that may go over several lines; a line end right after
them does not belong to it. -/
def longText (text : List Char) : Option (String × List Char) :=
  if startsTriple '"' text then
    (longBasicRest (dropLineEnd (text.drop 3))).map fun (inner, rest) =>
      (String.ofList inner, rest)
  else if startsTriple '\'' text then
    (longLiteralRest (dropLineEnd (text.drop 3))).map fun (inner, rest) =>
      (String.ofList inner, rest)
  else quoted text

end AttributeFilter.Toml
