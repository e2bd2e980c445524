import AttributeFilter.Text.Numeral

/-!
# Percent-encoded text

In a query text a byte may be written as a percent sign and two hexadecimal digits, and a blank as
a plus sign.

## Main definitions

* `Percent.decodeBytes`: replaces each escape by its byte; a percent sign without two digits after
  it stands for itself.
* `Percent.decode`: the text that a piece of query text stands for; if the bytes are no text, the
  piece stands for itself, but for its plus signs.

## Main results

* `Percent.decodeBytes_of_no_percent`: bytes without percent sign are left alone.
-/

namespace AttributeFilter.Percent

def percent : UInt8 := 0x25

def hexValue? (byte : UInt8) : Option UInt8 :=
  (Numeral.hexDigit? (Char.ofNat byte.toNat)).map UInt8.ofNat

/-- Replaces each escape by the byte it stands for. -/
def decodeBytes : List UInt8 → List UInt8
  | [] => []
  | byte :: rest =>
    if byte = percent then
      match rest with
      | first :: second :: tail =>
        match hexValue? first, hexValue? second with
        | some high, some low => (high * 16 + low) :: decodeBytes tail
        | _, _ => byte :: decodeBytes (first :: second :: tail)
      | short => byte :: short
    else byte :: decodeBytes rest

theorem decodeBytes_of_no_percent :
    (bytes : List UInt8) → percent ∉ bytes → decodeBytes bytes = bytes
  | [], _ => rfl
  | byte :: rest, h => by
    have hb : byte ≠ percent := fun e => h (e ▸ List.mem_cons_self)
    have hr : percent ∉ rest := fun m => h (List.mem_cons_of_mem _ m)
    rw [decodeBytes.eq_def]
    simp [hb, decodeBytes_of_no_percent rest hr]

/-- The text that a piece of query text stands for. -/
def decode (piece : List Char) : String :=
  let spaced := String.ofList (piece.map fun c => if c = '+' then ' ' else c)
  let bytes := decodeBytes spaced.toUTF8.toList
  (String.fromUTF8? ⟨bytes.toArray⟩).getD spaced

end AttributeFilter.Percent
