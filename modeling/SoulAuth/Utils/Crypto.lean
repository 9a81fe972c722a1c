import Mathlib.Data.List.Forall2
import SoulAuth.Error
import SoulAuth.Framework.Base64
import SoulAuth.Framework.Utf8

/-! # Secrets at rest, and comparison in constant time -/

namespace SoulAuth

open Framework

/-! ## Secrets at rest -/

/-- An authenticated cipher under one key: what was encrypted under a
    nonce is decrypted under it, and a tag of 16 bytes is added. -/
structure Aead where
  encrypt : List UInt8 → List UInt8 → List UInt8
  decrypt : List UInt8 → List UInt8 → Option (List UInt8)
  decrypt_encrypt : ∀ nonce plaintext, decrypt nonce (encrypt nonce plaintext) = some plaintext
  length_encrypt : ∀ nonce plaintext, (encrypt nonce plaintext).length = plaintext.length + 16

/-- `CIPHERTEXT_PREFIX`. -/
def ciphertextPrefix : Str := "enc.v1.".toList

/-- `NONCE_LEN`. -/
def nonceLen : Nat := 12

/-- The random bytes of one encryption. -/
structure CipherNonce where
  bytes : List UInt8
  length_bytes : bytes.length = nonceLen

/-- `SecretCipher`. -/
structure SecretCipher where
  cipher : Aead

/-- `encrypt`, with the nonce that it draws. -/
def SecretCipher.encrypt (c : SecretCipher) (nonce : CipherNonce) (plaintext : Str) : Str :=
  let ciphertext := c.cipher.encrypt nonce.bytes (Utf8.encode plaintext)
  ciphertextPrefix ++ Base64.encode (nonce.bytes ++ ciphertext)

/-- `decrypt`: a text without the prefix is an old plaintext. -/
def SecretCipher.decrypt (c : SecretCipher) (stored : Str) : Except AuthError Str :=
  match Str.stripPrefix ciphertextPrefix stored with
  | none => .ok stored
  | some encoded =>
    match Base64.decode encoded with
    | none => .error (.serverError "Stored secret is not valid base64")
    | some payload =>
      if payload.length ≤ nonceLen then .error (.serverError "Stored secret is truncated")
      else
        match c.cipher.decrypt (payload.take nonceLen) (payload.drop nonceLen) with
        | none => .error (.serverError "Failed to decrypt secret (wrong MFA encryption key?)")
        | some plaintext =>
          match Utf8.decode plaintext with
          | some text => .ok text
          | none => .error (.serverError "Decrypted secret is not valid UTF-8")

/-- `is_encrypted`. -/
def isEncrypted (stored : Str) : Bool := (Str.stripPrefix ciphertextPrefix stored).isSome

theorem isEncrypted_encrypt (c : SecretCipher) (nonce : CipherNonce) (plaintext : Str) :
    isEncrypted (c.encrypt nonce plaintext) = true := by
  unfold isEncrypted SecretCipher.encrypt
  rw [Str.stripPrefix_append]
  rfl

/-- **What was encrypted is decrypted.** -/
theorem SecretCipher.decrypt_encrypt (c : SecretCipher) (nonce : CipherNonce) (plaintext : Str) :
    c.decrypt (c.encrypt nonce plaintext) = .ok plaintext := by
  have hlong : ¬ (nonce.bytes ++ c.cipher.encrypt nonce.bytes (Utf8.encode plaintext)).length ≤
      nonceLen := by
    rw [List.length_append, nonce.length_bytes, c.cipher.length_encrypt]
    omega
  have htake : (nonce.bytes ++ c.cipher.encrypt nonce.bytes (Utf8.encode plaintext)).take nonceLen =
      nonce.bytes := by
    rw [← nonce.length_bytes]
    exact List.take_left
  have hdrop : (nonce.bytes ++ c.cipher.encrypt nonce.bytes (Utf8.encode plaintext)).drop nonceLen =
      c.cipher.encrypt nonce.bytes (Utf8.encode plaintext) := by
    rw [← nonce.length_bytes]
    exact List.drop_left
  unfold decrypt encrypt
  rw [Str.stripPrefix_append]
  dsimp only
  rw [Base64.decode_encode]
  dsimp only
  rw [if_neg hlong, htake, hdrop, c.cipher.decrypt_encrypt]
  dsimp only
  rw [Utf8.decode_encode]

theorem SecretCipher.decrypt_plain (c : SecretCipher) {stored : Str}
    (h : isEncrypted stored = false) : c.decrypt stored = .ok stored := by
  unfold isEncrypted at h
  unfold decrypt
  rw [Option.isNone_iff_eq_none.mp (Option.isSome_eq_false_iff.mp h)]

/-! ## Comparison -/

/-- `constant_time_eq`: texts of one length are compared to their end. -/
def constantTimeEq (a b : List UInt8) : Bool :=
  if a.length ≠ b.length then false
  else (a.zip b).foldl (fun acc p => acc ||| (p.1 ^^^ p.2)) 0 = 0

/-- The differences are collected, and none is lost. -/
theorem foldl_differences (ps : List (UInt8 × UInt8)) (acc : UInt8) :
    ps.foldl (fun acc p => acc ||| (p.1 ^^^ p.2)) acc = 0 ↔ acc = 0 ∧ ∀ p ∈ ps, p.1 = p.2 := by
  induction ps generalizing acc with
  | nil => simp
  | cons p ps ih =>
    rw [List.foldl_cons, ih, UInt8.or_eq_zero_iff, UInt8.xor_eq_zero_iff, List.forall_mem_cons,
      and_assoc]

theorem constantTimeEq_iff {a b : List UInt8} : constantTimeEq a b = true ↔ a = b := by
  have hzip : a = b ↔ a.length = b.length ∧ ∀ p ∈ a.zip b, p.1 = p.2 := by
    rw [← List.forall₂_eq_eq_eq, List.forall₂_iff_zip]
    simp only [Prod.forall]
  unfold constantTimeEq
  rw [hzip]
  by_cases hlength : a.length = b.length
  · rw [if_neg (not_not.mpr hlength), decide_eq_true_eq, foldl_differences]
    simp [hlength]
  · simp [hlength]

end SoulAuth
