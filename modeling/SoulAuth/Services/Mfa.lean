import SoulAuth.Services.Database
import SoulAuth.Utils.Totp

/-! # Second factors -/

namespace SoulAuth

open Framework

variable [Platform]

/-- The refusal of an instance without an encryption key. -/
def mfaNotConfigured : AuthError :=
  .serviceUnavailable
    ("MFA is not configured on this instance: MFA_SECRET_ENCRYPTION_KEY is not set. " ++
      "Generate one with `openssl rand -base64 32` and restart.")

/-- `cipher`: second factors need the encryption key of the instance. -/
def cipher (cfg : Config) : Except AuthError Unit :=
  if cfg.mfaKeyConfigured then .ok () else .error mfaNotConfigured

/-- `get_user_mfa`. -/
def getUserMfa (userId : Str) : Req AuthError UserMfa := do
  let row : Option UserMfa ← query (.mfa (.get userId))
  Prog.orThrow .userNotFound row

/-- `hash_backup_code` of `n` new codes. -/
def drawBackupCodes : Nat → Req AuthError (List (Str × Str))
  | 0 => return []
  | n + 1 => do
    let code ← newSecureToken
    let h ← hashPassword code
    let rest ← drawBackupCodes n
    return (code, h) :: rest

/-- `setup_totp`: the secret and the recovery codes. -/
def setupTotp (cfg : Config) (userId : Str) : Req AuthError (Str × List Str) := do
  let existing : Except AuthError UserMfa ← (getUserMfa userId).attempt
  Prog.ensure ((existing.toOption.any fun m => m.status = .enabled) = false)
    (.serverError "MFA already enabled")
  let secret ← newSecureToken
  let codes ← drawBackupCodes 8
  Prog.ofExcept (cipher cfg)
  query (.mfa (.save
    { userId := userId, status := .pending, method := .totp, totpSecret := some secret,
      backupCodes := codes.map Prod.snd, lastTotpStep := none }))
  return (secret, codes.map Prod.fst)

/-- What `Secret::to_bytes` and `TOTP::new` make of a secret. -/
def totpOf (secret : Str) : Except AuthError (Nat → Str) :=
  match Platform.totpBytesError secret, Platform.totpNewError secret with
  | some e, _ => .error (.serverError ("Invalid secret: " ++ e))
  | none, some e => .error (.serverError ("TOTP creation failed: " ++ e))
  | none, none => .ok (Platform.totpGenerate secret)

/-- `verify_totp_code`. -/
def verifyTotpCode (secret code : Str) : Req AuthError (Option Int) := do
  let totp ← Prog.ofExcept (totpOf secret)
  let now ← getNow
  return matchTotpStep totp code now

/-- `accept_totp_code`: the code matches a time step, and the step is
    consumed in the same statement that checks it. The statement also writes
    the secret of `m`, encrypted if it was not. -/
def acceptTotpCode (cfg : Config) (m : UserMfa) (code : Str) (enable : Bool) :
    Req AuthError Bool := do
  let secret ← Prog.orThrow (.serverError "TOTP secret not found") m.totpSecret
  Prog.ofExcept (cipher cfg)
  let found ← verifyTotpCode secret code
  match found with
  | none => return false
  | some step => query (.mfa (.consumeTotpStep m.userId secret step enable))

/-- `enable_totp`. -/
def enableTotp (cfg : Config) (userId code : Str) : Req AuthError Bool := do
  let m ← getUserMfa userId
  Prog.ensure (m.status = .pending) (.serverError "TOTP not in pending state")
  acceptTotpCode cfg m code true

/-- `verify_totp`. -/
def verifyTotp (cfg : Config) (userId code : Str) : Req AuthError Bool := do
  let m ← getUserMfa userId
  if m.status = .enabled then acceptTotpCode cfg m code false else return false

/-- `verify_backup_code`: stored codes are hashes, and older ones plain. -/
def verifyBackupCode (stored provided : Str) : Bool :=
  if (Str.stripPrefix "$argon2".toList stored).isSome then
    Platform.argon2WellFormed stored && Platform.argon2Verify stored provided
  else stored = provided

/-- `use_backup_code`. -/
def useBackupCode (userId code : Str) : Req AuthError Bool := do
  let m ← getUserMfa userId
  if m.status = .enabled then
    match m.backupCodes.find? fun stored => verifyBackupCode stored code with
    | some used => query (.mfa (.consumeBackupCode m.userId used))
    | none => return false
  else return false

/-- `disable_mfa`. -/
def disableMfa (userId : Str) : Req AuthError Bool := do
  let m ← getUserMfa userId
  if m.status = .disabled then return true else
    query (.mfa (.delete userId))
    return true

/-- `enabled_method`. -/
def enabledMethod (userId : Str) : Req AuthError (Option MfaMethod) := do
  let found : Except AuthError UserMfa ← (getUserMfa userId).attempt
  match found with
  | .ok m => return if m.status = .enabled then some m.method else none
  | .error .userNotFound => return none
  | .error e => throw e

end SoulAuth
