import SoulAuth.Framework.QueryString
import SoulAuth.Models.Oidc

/-! # Client authentication at the token endpoint

A client sends its id and its secret in the form, or form-encoded in the
header `Authorization: Basic`.
-/

namespace SoulAuth

open Framework

/-- The engine `STANDARD` of the package `base64`. -/
structure Base64Engine where
  encode : List UInt8 → Str
  decode : Str → Option (List UInt8)
  encode_chars : ∀ bytes, ∀ c ∈ encode bytes,
    c.isAlphanum = true ∨ c = '+' ∨ c = '/' ∨ c = '='
  decode_encode : ∀ bytes, decode (encode bytes) = some bytes

/-- `HeaderValue::to_str`: visible ASCII characters, spaces and tabs. -/
def headerToStr (value : List UInt8) : Option Str :=
  if value.all fun b => b = 9 || (32 ≤ b && b < 127) then
    some (value.map fun b => Char.ofNat b.toNat)
  else none

/-- The value of a byte that is a hexadecimal digit. -/
def hexDigitValue (b : UInt8) : Option Nat := QueryString.hexValue (Char.ofNat b.toNat)

/-- `u8::from_str_radix` on two bytes, with radix 16. A plus in front of the
    digits is read as their sign. -/
def fromStrRadix16 (a b : UInt8) : Option UInt8 :=
  if a = Utf8.byte '+' then (hexDigitValue b).map UInt8.ofNat
  else do
    let high ← hexDigitValue a
    let low ← hexDigitValue b
    some (UInt8.ofNat (16 * high + low))

/-- The loop of `percent_decode`. An escape that is none is kept. -/
def percentDecodeBytes : List UInt8 → List UInt8
  | b :: h :: l :: rest =>
    if b = Utf8.byte '%' then
      match fromStrRadix16 h l with
      | some value => value :: percentDecodeBytes rest
      | none => b :: percentDecodeBytes (h :: l :: rest)
    else b :: percentDecodeBytes (h :: l :: rest)
  | short => short

/-- `percent_decode`: bytes that are no text are not decoded. -/
def percentDecode (raw : Str) : Str :=
  (Utf8.decode (percentDecodeBytes (Utf8.encode raw))).getD raw

/-- `basic_client_credentials`, on the value of the header. -/
def basicClientCredentials (engine : Base64Engine) (authorization : Option (List UInt8)) :
    Option (Str × Str) := do
  let value ← authorization
  let raw ← headerToStr value
  let (scheme, encoded) ← Str.splitOnce ' ' raw
  if Str.toAsciiLowercase scheme ≠ "basic".toList then none
  let decoded ← engine.decode (Str.trim encoded)
  let text ← Utf8.decode decoded
  let (id, secret) ← Str.splitOnce ':' text
  some (percentDecode id, percentDecode secret)

end SoulAuth
