import SoulAuth.Framework.Mirror
import SoulAuth.Services.Mfa
import SoulAuth.Utils.Crypto

/-! # Second factors with their secrets encrypted

In the database the secret of a second factor is encrypted, unless the row is
older than the encryption. Two of the operations read or write the secret;
they encrypt what they write, and decrypt what they read when they need it.
The others only look at the rest of the row.
-/

namespace SoulAuth

open Framework

variable [Platform]

/-- `cipher`, with the key that it returns. -/
def configuredCipher (cipher : Option SecretCipher) : Except AuthError SecretCipher :=
  match cipher with
  | some c => .ok c
  | none => .error mfaNotConfigured

/-- `decrypted_secret`. -/
def decryptedSecret (cipher : Option SecretCipher) (m : UserMfa) : Except AuthError Str :=
  match m.totpSecret with
  | none => .error (.serverError "TOTP secret not found")
  | some stored => do
    let c ← configuredCipher cipher
    c.decrypt stored

/-- `with_encrypted_secret`. -/
def withEncryptedSecret (cipher : Option SecretCipher) (nonce : CipherNonce) (m : UserMfa) :
    Except AuthError UserMfa :=
  match m.totpSecret with
  | none => .ok m
  | some secret => do
    -- the callers have encrypted it already
    if isEncrypted secret then return m
    let c ← configuredCipher cipher
    return { m with totpSecret := some (c.encrypt nonce secret) }

/-- `save_user_mfa`. -/
def saveUserMfa (cipher : Option SecretCipher) (nonce : CipherNonce) (m : UserMfa) :
    Req AuthError Unit := do
  let m ← Prog.ofExcept (withEncryptedSecret cipher nonce m)
  query (.mfa (.save m))

/-- `setup_totp`. -/
def setupSealedTotp (cipher : Option SecretCipher) (nonce : CipherNonce) (userId : Str) :
    Req AuthError (Str × List Str) := do
  -- a look-up that fails counts as no factor
  let existing : Except AuthError UserMfa ← (getUserMfa userId).attempt
  Prog.ensure ((existing.toOption.any fun m => m.status = .enabled) = false)
    (.serverError "MFA already enabled")
  let secret ← newSecureToken
  let codes ← drawBackupCodes 8
  let c ← Prog.ofExcept (configuredCipher cipher)
  saveUserMfa cipher nonce
    { userId := userId, status := .pending, method := .totp,
      totpSecret := some (c.encrypt nonce secret), backupCodes := codes.map Prod.snd,
      lastTotpStep := none }
  return (secret, codes.map Prod.fst)

/-- The text that `accept_totp_code` writes back: the stored one, when what
    it decrypts to looks encrypted, and else a new encryption. -/
def resealedSecret (cipher : Option SecretCipher) (nonce : CipherNonce) (m : UserMfa)
    (secret : Str) : Except AuthError (Option Str) :=
  if isEncrypted secret then .ok m.totpSecret
  else do
    let c ← configuredCipher cipher
    return some (c.encrypt nonce secret)

/-- `accept_totp_code`. A row without a secret has been refused before the
    statement is reached. -/
def acceptSealedCode (cipher : Option SecretCipher) (nonce : CipherNonce) (m : UserMfa)
    (code : Str) (enable : Bool) : Req AuthError Bool := do
  let secret ← Prog.ofExcept (decryptedSecret cipher m)
  let found ← verifyTotpCode secret code
  -- the step is checked and spent in one statement
  match found with
  | none => return false
  | some step => do
    let encrypted ← Prog.ofExcept (resealedSecret cipher nonce m secret)
    query (.mfa (.consumeTotpStep m.userId (encrypted.getD []) step enable))

/-- `enable_totp`. -/
def enableSealedTotp (cipher : Option SecretCipher) (nonce : CipherNonce) (userId code : Str) :
    Req AuthError Bool := do
  let m ← getUserMfa userId
  Prog.ensure (m.status = .pending) (.serverError "TOTP not in pending state")
  acceptSealedCode cipher nonce m code true

/-- `verify_totp`. -/
def verifySealedTotp (cipher : Option SecretCipher) (nonce : CipherNonce) (userId code : Str) :
    Req AuthError Bool := do
  let m ← getUserMfa userId
  if m.status = .enabled then acceptSealedCode cipher nonce m code false else return false

/-- `MfaStatusResponse`, without the time of the last use. -/
structure MfaStatusResponse where
  enabled : Bool
  method : Option MfaMethod
  backupCodesCount : Nat
  deriving DecidableEq, Repr

/-- `get_mfa_status`. -/
def getMfaStatus (userId : Str) : Req AuthError MfaStatusResponse := do
  let found : Except AuthError UserMfa ← (getUserMfa userId).attempt
  match found with
  | .ok m => return ⟨m.status = .enabled, some m.method, m.backupCodes.length⟩
  | .error .userNotFound => return ⟨false, none, 0⟩
  | .error e => throw e

/-! ## The service -/

/-- The operations of `MfaService`. -/
inductive MfaCall
  | setup (userId : Str)
  | enable (userId code : Str)
  | verify (userId code : Str)
  | useBackupCode (userId code : Str)
  | disable (userId : Str)
  | status (userId : Str)
  | enabledMethod (userId : Str)
  deriving DecidableEq, Repr

/-- What they answer. -/
inductive MfaAnswer
  | setup (secret : Str) (backupCodes : List Str)
  | verified (ok : Bool)
  | status (response : MfaStatusResponse)
  | method (method : Option MfaMethod)
  deriving DecidableEq, Repr

/-- The operations that do not look at the secret. -/
def MfaCall.rest (call : MfaCall) : Req AuthError MfaAnswer :=
  match call with
  | .useBackupCode userId code => do return .verified (← SoulAuth.useBackupCode userId code)
  | .disable userId => do return .verified (← disableMfa userId)
  | .status userId => do return .status (← getMfaStatus userId)
  | .enabledMethod userId => do return .method (← SoulAuth.enabledMethod userId)
  | _ => throw .invalidToken

/-- An operation, on secrets in the clear. -/
def MfaCall.program (cfg : Config) (call : MfaCall) : Req AuthError MfaAnswer :=
  match call with
  | .setup userId => do
    let out ← setupTotp cfg userId
    return .setup out.1 out.2
  | .enable userId code => do return .verified (← enableTotp cfg userId code)
  | .verify userId code => do return .verified (← verifyTotp cfg userId code)
  | call => call.rest

/-- An operation with the random bytes that it would encrypt with. -/
structure SealedMfaCall where
  call : MfaCall
  nonce : CipherNonce

/-- An operation, on encrypted secrets. -/
def SealedMfaCall.program (cipher : Option SecretCipher) (c : SealedMfaCall) :
    Req AuthError MfaAnswer :=
  match c.call with
  | .setup userId => do
    let out ← setupSealedTotp cipher c.nonce userId
    return .setup out.1 out.2
  | .enable userId code => do
    return .verified (← enableSealedTotp cipher c.nonce userId code)
  | .verify userId code => do
    return .verified (← verifySealedTotp cipher c.nonce userId code)
  | call => call.rest

end SoulAuth
