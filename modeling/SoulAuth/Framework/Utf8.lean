import Mathlib.Data.List.Basic

/-! # UTF-8

The bytes of a text, and the text of some bytes when they are one. A text is
determined by its bytes, and an ASCII character is one byte.
-/

namespace SoulAuth.Framework.Utf8

/-- The bytes of a text. -/
def encode (s : List Char) : List UInt8 := s.flatMap String.utf8EncodeChar

/-- The text, if the bytes are one. -/
def decode (bytes : List UInt8) : Option (List Char) :=
  (String.fromUTF8? bytes.toByteArray).map String.toList

/-- The byte of an ASCII character. -/
def byte (c : Char) : UInt8 := c.val.toUInt8

@[simp] theorem encode_nil : encode [] = [] := rfl

theorem encode_cons (c : Char) (s : List Char) :
    encode (c :: s) = String.utf8EncodeChar c ++ encode s := List.flatMap_cons

@[simp] theorem encode_append (s t : List Char) : encode (s ++ t) = encode s ++ encode t :=
  List.flatMap_append

theorem toByteArray_encode (s : List Char) :
    (encode s).toByteArray = (String.ofList s).toByteArray := by
  rw [String.toByteArray_ofList]
  simp [encode, List.utf8Encode]

theorem fromUTF8?_toByteArray (t : String) : String.fromUTF8? t.toByteArray = some t := by
  unfold String.fromUTF8?
  rw [dif_pos t.isValidUTF8]
  rfl

/-- **A text is read back.** -/
theorem decode_encode (s : List Char) : decode (encode s) = some s := by
  rw [decode, toByteArray_encode, fromUTF8?_toByteArray, Option.map_some, String.toList_ofList]

theorem encode_inj {s t : List Char} : encode s = encode t ↔ s = t := by
  constructor
  · intro h
    have hdecoded : decode (encode s) = decode (encode t) := congrArg decode h
    rw [decode_encode, decode_encode] at hdecoded
    exact Option.some.inj hdecoded
  · intro h
    rw [h]

theorem toByteArray_inj {bs cs : List UInt8} (h : bs.toByteArray = cs.toByteArray) : bs = cs := by
  have hdata := congrArg (fun a : ByteArray => a.data.toList) h
  simpa using hdata

/-- Bytes that are a text are the bytes of this text. -/
theorem encode_decode {bytes : List UInt8} {s : List Char} (h : decode bytes = some s) :
    encode s = bytes := by
  obtain ⟨t, ht, rfl⟩ := Option.map_eq_some_iff.mp h
  unfold String.fromUTF8? at ht
  split at ht
  · cases ht
    apply toByteArray_inj
    rw [toByteArray_encode, String.ofList_toList]
    rfl
  · cases ht

/-! ## ASCII -/

/-- An ASCII character is one byte. -/
theorem encodeChar_ascii {c : Char} (h : c.toNat < 128) : String.utf8EncodeChar c = [byte c] := by
  apply String.utf8EncodeChar_eq_singleton
  rw [Char.utf8Size_eq_one_iff]
  show c.val.toNat ≤ 127
  exact Nat.le_of_lt_succ h

theorem toNat_byte {c : Char} (h : c.toNat < 128) : (byte c).toNat = c.toNat := by
  show c.val.toNat % 256 = c.val.toNat
  have hc : c.val.toNat < 128 := h
  omega

/-- The characters of a text, as its bytes. -/
theorem encode_ascii {s : List Char} (h : ∀ c ∈ s, c.toNat < 128) : encode s = s.map byte := by
  induction s with
  | nil => rfl
  | cons c s ih =>
    obtain ⟨hc, hs⟩ := List.forall_mem_cons.mp h
    rw [encode_cons, encodeChar_ascii hc, ih hs]
    rfl

/-- The character of an ASCII byte. -/
theorem ofNat_byte {c : Char} (h : c.toNat < 128) : Char.ofNat (byte c).toNat = c := by
  rw [toNat_byte h, Char.ofNat_toNat]

end SoulAuth.Framework.Utf8
