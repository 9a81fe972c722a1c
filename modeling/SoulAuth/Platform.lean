import SoulAuth.Utils.Text

/-! # The platform

The functions of third-party packages that the program calls, as
parameters, with the documented facts that the development uses.

A digest under which a bearer value is stored (`hash_bearer`) is not a
parameter: `Hashed a` is the SHA-256 fingerprint of `a`, and two
fingerprints are equal only when their origins are.
-/

namespace SoulAuth

/-- Third-party functions. `uuid n` and `secureToken n` are the `n`-th
    values drawn from the random sources of the running system. -/
class Platform where
  /-- `Uuid::new_v4().to_string()`. -/
  uuid : Nat → Str
  uuid_injective : Function.Injective uuid
  uuid_ne_nil : ∀ n, uuid n ≠ []
  uuid_chars : ∀ n, ∀ c ∈ uuid n, c.isAlphanum ∨ c = '-'
  /-- Random bytes in base64url, as codes, tokens and nonces are made. -/
  secureToken : Nat → Str
  secureToken_injective : Function.Injective secureToken
  /-- BASE64URL-ENCODE(SHA-256(ASCII(verifier))) of RFC 7636. -/
  s256 : Str → Str
  /-- SHA-256 in lower-case hexadecimal. -/
  sha256Hex : Str → Str
  /-- Argon2 with the salt number `n`. -/
  argon2Hash : Nat → Str → Str
  /-- `PasswordHash::new` accepts the stored text. -/
  argon2WellFormed : Str → Bool
  argon2Verify : Str → Str → Bool
  argon2Hash_wellFormed : ∀ n pw, argon2WellFormed (argon2Hash n pw) = true
  argon2Verify_hash : ∀ n pw, argon2Verify (argon2Hash n pw) pw = true
  /-- The hash of a random value that `dummy_password_hash` keeps. -/
  dummyPasswordHash : Str
  /-- The TOTP code of a secret at a Unix time. -/
  totpGenerate : Str → Nat → Str
  /-- What `Secret::to_bytes` and `TOTP::new` say of a secret they refuse. -/
  totpBytesError : Str → Option String
  totpNewError : Str → Option String
  /-- `URL_SAFE_NO_PAD.decode`. -/
  base64UrlDecode : Str → Option (List UInt8)
  /-- `VerifyingKey::from_bytes` accepts the bytes. -/
  isVerifyingKey : List UInt8 → Bool
  /-- Ed25519 verification of a signature of a payload under a key. -/
  ed25519Verify : Str → Str → Str → Bool
  /-- `char::is_lowercase`, `is_uppercase`, `is_alphanumeric`. -/
  isLowercase : Char → Bool
  isUppercase : Char → Bool
  isAlphanumeric : Char → Bool

/-- The SHA-256 fingerprint of a bearer value. -/
structure Hashed (α : Type) where
  of : α
  deriving DecidableEq, Repr

/-- `hash_bearer`. -/
def hashBearer {α : Type} (a : α) : Hashed α := ⟨a⟩

@[simp] theorem hashBearer_inj {α : Type} {a b : α} :
    hashBearer a = hashBearer b ↔ a = b := by
  simp [hashBearer]

end SoulAuth
