import AttributeFilter.Parameter.Percent

/-!
# Percent-encoding and back

Every byte of a text can be written as an escape, and so every text can be sent. A piece of query
text spells a text if its bytes, read before any others, give the bytes of the text; this is kept by
appending, so that escapes and the signs between them can be read together.

## Main definitions

* `Percent.encode`: a text with every byte escaped.
* `Percent.Spells`: a piece of query text gives the bytes of a text.

## Main results

* `Percent.decodeBytes_encodeByte`: an escape stands for its byte.
* `Percent.Spells.append`: two pieces together spell the two texts together.
* `Percent.Spells.encode`, `Percent.Spells.of_plain`: an encoded text and a plain sign spell
  themselves.
* `Percent.Spells.decode_eq`: what a piece spells is what it stands for.
-/

namespace AttributeFilter.Percent

/-! ### Bytes of characters -/

def bytesOf (chars : List Char) : List UInt8 :=
  chars.flatMap String.utf8EncodeChar

theorem bytesOf_append (first second : List Char) :
    bytesOf (first ++ second) = bytesOf first ++ bytesOf second :=
  List.flatMap_append

theorem toList_loop_eq (bytes : ByteArray) (start : Nat) (seen : List UInt8) :
    ByteArray.toList.loop bytes start seen = seen.reverse ++ bytes.data.toList.drop start := by
  fun_induction ByteArray.toList.loop bytes start seen with
  | case1 start seen hlt ih =>
    have hlength : start < bytes.data.toList.length := hlt
    rw [ih, List.drop_eq_getElem_cons hlength, List.reverse_cons, List.append_assoc]
    simp [ByteArray.get!, hlt]
  | case2 start seen hge =>
    have hlength : bytes.data.toList.length ≤ start := Nat.le_of_not_lt hge
    rw [List.drop_eq_nil_of_le hlength, List.append_nil]

theorem toList_toUTF8_ofList (chars : List Char) :
    (String.ofList chars).toUTF8.toList = bytesOf chars := by
  rw [ByteArray.toList, toList_loop_eq, String.toUTF8_eq_toByteArray, String.toByteArray_ofList]
  simp [List.utf8Encode, bytesOf]

theorem fromUTF8?_bytesOf (chars : List Char) :
    String.fromUTF8? ⟨(bytesOf chars).toArray⟩ = some (String.ofList chars) := by
  have hbytes : ByteArray.mk (bytesOf chars).toArray = chars.utf8Encode := by
    apply ByteArray.ext
    simp [List.utf8Encode, bytesOf]
  rw [hbytes, String.fromUTF8?, dif_pos ByteArray.isValidUTF8_utf8Encode]
  rfl

/-! ### Escapes -/

/-- The hexadecimal digit of a number below sixteen. -/
def hexDigit (number : Nat) : Char :=
  (Nat.digitChar number).toUpper

def encodeByte (byte : UInt8) : List Char :=
  ['%', hexDigit (byte.toNat / 16), hexDigit (byte.toNat % 16)]

/-- A text with every byte escaped. -/
def encode (text : String) : List Char :=
  (bytesOf text.toList).flatMap encodeByte

theorem hexValue?_hexDigit : ∀ number ∈ List.range 16,
    (String.utf8EncodeChar (hexDigit number)).map hexValue? = [some (UInt8.ofNat number)] := by
  decide

theorem decodeBytes_of_ne_percent {byte : UInt8} (h : byte ≠ percent) (rest : List UInt8) :
    decodeBytes (byte :: rest) = byte :: decodeBytes rest := by
  rw [decodeBytes.eq_def]
  simp [h]

theorem decodeBytes_encodeByte (byte : UInt8) (rest : List UInt8) :
    decodeBytes (bytesOf (encodeByte byte) ++ rest) = byte :: decodeBytes rest := by
  have hlt : byte.toNat < 256 := byte.toNat_lt
  obtain ⟨first, hfirst, hhigh⟩ := List.map_eq_singleton_iff.1
    (hexValue?_hexDigit (byte.toNat / 16) (List.mem_range.2 (by omega)))
  obtain ⟨second, hsecond, hlow⟩ := List.map_eq_singleton_iff.1
    (hexValue?_hexDigit (byte.toNat % 16) (List.mem_range.2 (by omega)))
  have hbytes : bytesOf (encodeByte byte) = [percent, first, second] := by
    simp only [bytesOf, encodeByte, List.flatMap_cons, hfirst, hsecond]
    rfl
  have hvalue : UInt8.ofNat (byte.toNat / 16) * 16 + UInt8.ofNat (byte.toNat % 16) = byte := by
    apply UInt8.toNat_inj.1
    simp
    omega
  rw [hbytes]
  simp only [List.cons_append, List.nil_append]
  rw [decodeBytes.eq_def]
  simp [hhigh, hlow, hvalue]

theorem decodeBytes_flatMap_encodeByte (bytes rest : List UInt8) :
    decodeBytes (bytesOf (bytes.flatMap encodeByte) ++ rest) = bytes ++ decodeBytes rest := by
  induction bytes with
  | nil => rfl
  | cons byte bytes ih =>
    rw [List.flatMap_cons, bytesOf_append, List.append_assoc, decodeBytes_encodeByte, ih,
      List.cons_append]

def escapeSigns : List Char :=
  "%0123456789ABCDEF".toList

theorem hexDigit_mem_escapeSigns : ∀ number ∈ List.range 16, hexDigit number ∈ escapeSigns := by
  decide

/-- An encoded text has no signs but those of escapes. -/
theorem mem_escapeSigns_of_mem_encode {text : String} {c : Char} (h : c ∈ encode text) :
    c ∈ escapeSigns := by
  obtain ⟨byte, -, hc⟩ := List.mem_flatMap.1 h
  have hlt : byte.toNat < 256 := byte.toNat_lt
  rcases List.mem_cons.1 hc with rfl | hc
  · decide
  rcases List.mem_cons.1 hc with rfl | hc
  · exact hexDigit_mem_escapeSigns _ (List.mem_range.2 (by omega))
  · rw [List.mem_singleton.1 hc]
    exact hexDigit_mem_escapeSigns _ (List.mem_range.2 (by omega))

/-! ### Spelling a text -/

/-- The piece of query text gives the bytes of the text, whatever follows it. -/
structure Spells (piece text : List Char) : Prop where
  plusless : '+' ∉ piece
  decodes : ∀ rest, decodeBytes (bytesOf piece ++ rest) = bytesOf text ++ decodeBytes rest

namespace Spells

theorem nil : Spells [] [] where
  plusless := List.not_mem_nil
  decodes _ := rfl

/-- Two pieces together spell the two texts together. -/
theorem append {first second left right : List Char} (hfirst : Spells first left)
    (hsecond : Spells second right) : Spells (first ++ second) (left ++ right) where
  plusless hmem := (List.mem_append.1 hmem).elim hfirst.plusless hsecond.plusless
  decodes rest := by
    rw [bytesOf_append, List.append_assoc, hfirst.decodes, hsecond.decodes, bytesOf_append,
      List.append_assoc]

/-- A sign of one byte that is neither a percent nor a plus sign spells itself. -/
theorem of_plain {c : Char} {byte : UInt8} (hbyte : String.utf8EncodeChar c = [byte])
    (hpercent : byte ≠ percent) (hplus : c ≠ '+') : Spells [c] [c] where
  plusless hmem := hplus (List.mem_singleton.1 hmem).symm
  decodes rest := by
    have hbytes : bytesOf [c] = [byte] := by rw [bytesOf, List.flatMap_singleton, hbyte]
    rw [hbytes, List.singleton_append, decodeBytes_of_ne_percent hpercent, List.singleton_append]

theorem encode (text : String) : Spells (encode text) text.toList where
  plusless hmem := absurd (mem_escapeSigns_of_mem_encode hmem) (by decide)
  decodes rest := decodeBytes_flatMap_encodeByte (bytesOf text.toList) rest

/-- What a piece spells is what it stands for. -/
theorem decode_eq {piece text : List Char} (h : Spells piece text) :
    decode piece = String.ofList text := by
  have hspaced : (piece.map fun c => if c = '+' then ' ' else c) = piece := by
    calc piece.map (fun c => if c = '+' then ' ' else c)
        = piece.map id := by
          refine List.map_congr_left fun c hc => if_neg ?_
          rintro rfl
          exact h.plusless hc
      _ = piece := List.map_id piece
  have hbytes := h.decodes []
  rw [List.append_nil] at hbytes
  simp only [decode, hspaced]
  rw [toList_toUTF8_ofList, hbytes]
  simp only [decodeBytes, List.append_nil, fromUTF8?_bytesOf, Option.getD_some]

end Spells

end AttributeFilter.Percent
