import ShortLinks.Text.Lines
import Mathlib.Data.List.Basic

/-!
# Texts and their bytes

Encoding is lossless: bytes that are a text are the encoding of exactly that text.
The byte of a newline occurs in an encoding only where the text has a newline, so
lines of a text and lines of its bytes are the same.
-/

namespace ShortLinks.Text

set_option autoImplicit false

theorem encode_append (first second : String) :
    encode (first ++ second) = encode first ++ encode second := by
  simp [encode]

theorem bytes_of_encode (text : String) :
    ByteArray.mk (encode text).toArray = text.toByteArray := by
  have same : (encode text).toByteArray = text.toList.utf8Encode := rfl
  rw [← String.utf8Encode_toList, ← same]
  exact ByteArray.ext (by simp)

theorem decode_encode (text : String) : decode? (encode text) = some text := by
  unfold decode? String.fromUTF8?
  simp only [bytes_of_encode]
  exact dif_pos text.isValidUTF8

theorem encode_of_decode {bytes : Bytes} {text : String} (decoded : decode? bytes = some text) :
    encode text = bytes := by
  unfold decode? String.fromUTF8? at decoded
  split at decoded
  · rename_i valid
    have same : text.toByteArray = ByteArray.mk bytes.toArray := by
      rw [← Option.some.inj decoded]
      rfl
    rw [← bytes_of_encode] at same
    exact List.toArray_inj (ByteArray.mk.inj same)
  · simp at decoded

theorem encode_injective {first second : String} (same : encode first = encode second) :
    first = second := by
  have decoded := decode_encode first
  rw [same, decode_encode] at decoded
  exact (Option.some.inj decoded).symm

theorem bytes_append (first second : Bytes) :
    ByteArray.mk (first ++ second).toArray =
      ByteArray.mk first.toArray ++ ByteArray.mk second.toArray := by
  apply ByteArray.ext
  simp

theorem part_of_encode {part whole : String} (front : encode part <+: encode whole) :
    part.toList <+: whole.toList := by
  rcases front with ⟨rest, bytes⟩
  apply List.isPrefix_of_utf8Encode_append_eq_utf8Encode (ByteArray.mk rest.toArray)
  rw [String.utf8Encode_toList, String.utf8Encode_toList, ← bytes_of_encode, ← bytes_of_encode,
    ← bytes, bytes_append]

theorem behind_encode {first whole : String} {rest : Bytes}
    (joined : encode first ++ rest = encode whole) :
    ∃ second, rest = encode second ∧ whole = first ++ second := by
  obtain ⟨letters, spelled⟩ := part_of_encode ⟨rest, joined⟩
  have same : whole = first ++ String.ofList letters := by
    apply String.toList_inj.1
    simp [spelled]
  rw [same, encode_append] at joined
  exact ⟨String.ofList letters, List.append_cancel_left joined, same⟩

/-- What stands in front of the end of a text is a text: no character begins within another. -/
theorem before_encode {rest : Bytes} {last whole : String}
    (joined : rest ++ encode last = encode whole) :
    ∃ first, rest = encode first ∧ whole = first ++ last := by
  have bytes : whole.toByteArray = ByteArray.mk rest.toArray ++ last.toByteArray := by
    rw [← bytes_of_encode, ← bytes_of_encode, ← joined, bytes_append]
  have length : (ByteArray.mk rest.toArray).size = rest.length := rfl
  have size : whole.utf8ByteSize = rest.length + last.utf8ByteSize := by
    have sizes := congrArg ByteArray.size bytes
    rwa [ByteArray.size_append, length, String.size_toByteArray, String.size_toByteArray] at sizes
  have cut : String.Pos.Raw.IsValid whole ⟨rest.length⟩ := by
    have behind : (whole.toByteArray.extract rest.length whole.rawEndPos.byteIdx).IsValidUTF8 := by
      rw [bytes, ByteArray.extract_append_eq_right length.symm]
      · exact last.isValidUTF8
      · simp [size, length]
    have within : (⟨rest.length⟩ : String.Pos.Raw) ≤ whole.rawEndPos := by
      simp [String.Pos.Raw.le_iff, size]
    rcases (String.Pos.Raw.isValidUTF8_extract_iff _ _ within (Nat.le_refl _)).1 behind with
      ends | both
    · rw [ends]
      exact String.Pos.Raw.isValid_rawEndPos
    · exact both.1
  have valid := cut.isValidUTF8_extract_zero
  rw [bytes, ByteArray.extract_append_eq_left length.symm] at valid
  obtain ⟨letters, same⟩ := valid
  have text : rest = encode (String.ofList letters) := by
    have encoded := bytes_of_encode (String.ofList letters)
    rw [String.toByteArray_ofList, ← same] at encoded
    exact (List.toArray_inj (ByteArray.mk.inj encoded)).symm
  rw [text, ← encode_append] at joined
  exact ⟨_, text, (encode_injective joined).symm⟩

theorem newline_eq_ofNat (value : Nat) (small : value < 256) :
    newline = UInt8.ofNat value ↔ value = 10 := by
  have values : newline = UInt8.ofNat value ↔ newline.toNat = (UInt8.ofNat value).toNat :=
    UInt8.toNat_inj.symm
  rw [values, UInt8.toNat_ofNat', Nat.mod_eq_of_lt small, show newline.toNat = 10 from rfl]
  exact eq_comm

/-- Only the newline itself has the byte of a newline: every byte of a longer
sequence has its highest bit set. -/
theorem newline_mem_utf8EncodeChar (c : Char) :
    newline ∈ String.utf8EncodeChar c ↔ c = '\n' := by
  have point : c = '\n' ↔ c.val.toNat = 10 := by
    rw [← Char.val_inj, ← UInt32.toNat_inj]
    rfl
  unfold String.utf8EncodeChar
  simp only [point]
  split
  · rename_i short
    simp only [List.mem_singleton, newline_eq_ofNat c.val.toNat (by omega)]
  · split
    · simp only [List.mem_cons, List.not_mem_nil, or_false]
      rw [newline_eq_ofNat _ (by omega), newline_eq_ofNat _ (by omega)]
      omega
    · split
      · simp only [List.mem_cons, List.not_mem_nil, or_false]
        rw [newline_eq_ofNat _ (by omega), newline_eq_ofNat _ (by omega),
          newline_eq_ofNat _ (by omega)]
        omega
      · simp only [List.mem_cons, List.not_mem_nil, or_false]
        rw [newline_eq_ofNat _ (by omega), newline_eq_ofNat _ (by omega),
          newline_eq_ofNat _ (by omega), newline_eq_ofNat _ (by omega)]
        omega

theorem newline_mem_encode (text : String) : newline ∈ encode text ↔ '\n' ∈ text.toList := by
  simp [encode, newline_mem_utf8EncodeChar]

end ShortLinks.Text
