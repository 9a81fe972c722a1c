import SoulAuth.Services.Auth
import SoulAuth.Services.AccountLockout
import SoulAuth.Services.Oidc
import SoulAuth.Services.UserManagement

/-! # The endpoints under `/api/auth` and `/api/users`

An endpoint behind a login receives the key of the authenticated user. The
recording of a failed login and the reset after a completed one run in the
background, after the response; they are requests of their own.
-/

namespace SoulAuth

open Framework

variable [Platform]

/-! ## Login -/

/-- `run_lockout_check_with_reauth`: a failed check is tried once more. -/
def checkWithReauth (check : Req AuthError LockoutCheckResult) :
    Req AuthError LockoutCheckResult := do
  let first : Except AuthError LockoutCheckResult ← check.attempt
  match first with
  | .ok result => return result
  | .error _ => check.mapError fun _ => .serviceUnavailable "Please retry in a moment"

/-- Refuse when a check found a lock, as `locked_response` says. -/
def refuseLocked (result : LockoutCheckResult) : Except AuthError Unit :=
  if result.isLocked then .error (.accountLocked result.remainingLockoutSeconds) else .ok ()

/-- `ensure_not_locked_out`: the address first, then the account. -/
def ensureNotLockedOut (cfg : Config) (email ip : Str) : Req AuthError Unit := do
  let ipLockout ← checkWithReauth (checkIpLockout cfg.lockout ip)
  Prog.ofExcept (refuseLocked ipLockout)
  let userLockout ← checkWithReauth (checkUserLockout cfg.lockout email)
  Prog.ofExcept (refuseLocked userLockout)

/-- `record_lockout_failure`. -/
def recordLockoutFailure (cfg : Config) (email ip : Str) : Req AuthError Unit := do
  (recordFailedUserAttempt cfg.lockout email).swallow
  (recordFailedIpAttempt cfg.lockout ip).swallow

/-- `reset_lockout_counters`. -/
def resetLockoutCounters (email ip : Str) : Req AuthError Unit := do
  (resetUserAttempts email).swallow
  (resetIpAttempts ip).swallow

/-- What a login tells the caller about its failure. -/
def loginError : AuthError → AuthError
  | .userNotFound => .invalidCredentials
  | e => e

/-- The session of `LoginResponse`, with the browser cookie that
    `login_response` sets. -/
structure LoginResponse where
  issued : IssuedSession
  cookie : BrowserSessionClaims
  deriving DecidableEq, Repr

/-- `SESSION_TTL_SECONDS` of the cookie. -/
def cookieTtlSeconds : Int := 86400

/-- `create_browser_session_token` for an issued session. -/
def withCookie (issued : IssuedSession) : Req AuthError LoginResponse := do
  let now ← getNow
  return ⟨issued, { sub := issued.user.id, sid := issued.sessionKey,
                    exp := now + cookieTtlSeconds, iat := now }⟩

/-- `perform_login`. -/
def performLogin (cfg : Config) (email password ip : Str) : Req AuthError LoginOutcome := do
  ensureNotLockedOut cfg email ip
  (login cfg email password ip).mapError loginError

/-- A second factor as submitted. -/
inductive SecondFactor
  | totp (code : Str)
  | backupCode (code : Str)
  | none
  deriving DecidableEq, Repr

/-- The verification of a second factor. -/
def verifySecondFactor (cfg : Config) (userId : Str) :
    SecondFactor → Req AuthError (Bool × AuthenticationMethod)
  | .totp code => do
    let ok ← verifyTotp cfg userId code
    return (ok, .totp)
  | .backupCode code => do
    let ok ← useBackupCode userId code
    return (ok, .backupCode)
  | .none => throw (.validationError "Either totp_code or backup_code is required")

/-- The error of a verification that failed for another reason than the
    submitted values. -/
def mfaVerificationError : AuthError → AuthError
  | .validationError m => .validationError m
  | _ => .serverError "MFA verification failed"

/-- `decode_mfa_challenge_token`; the validation allows a minute. -/
def decodeMfaChallenge (challenge : MfaChallengeClaims) : Req AuthError Unit := do
  let now ← getNow
  Prog.ensure (¬ challenge.exp < now - 60) (.tokenError "Invalid or expired MFA token")

/-- `mfa_login_verify`. -/
def mfaLoginVerify (cfg : Config) (challenge : MfaChallengeClaims) (factor : SecondFactor)
    (ip : Str) : Req AuthError IssuedSession := do
  decodeMfaChallenge challenge
  ensureNotLockedOut cfg challenge.email ip
  let verified ← (verifySecondFactor cfg challenge.sub factor).mapError mfaVerificationError
  Prog.ensure (verified.1 = true) .invalidCredentials
  completeMfaLogin cfg challenge.sub ip verified.2

/-! ## Revocation -/

/-- `reset_password`. -/
def resetPasswordRoute (cfg : Config) (token newPassword : Str) : Req AuthError Unit := do
  let userId ← resetPassword cfg token newPassword
  (revokeAllTokensForUser userId).mapError fun _ =>
    .serverError ("Password was reset but issued tokens could not be revoked; " ++
      "retry or revoke them from the admin surface")

/-- `logout_all`. -/
def logoutAll (userId : Str) : Req AuthError Unit := do
  deleteSessionsByUserId userId
  (revokeAllTokensForUser userId).mapError fun _ =>
    .serverError "Sessions were ended but issued tokens could not be revoked; retry logout-all"

/-- `update_user_account_status`: what the account no longer may use is
    revoked, and a failure of that is only logged. -/
def updateUserAccountStatus (userId : Str) (status : AccountStatus) : Req AuthError Unit := do
  updateAccountStatus userId status
  if status = .active then return () else
    (deleteSessionsByUserId (normalizeUserId userId) : Req AuthError Unit).swallow
    (revokeAllTokensForUser (normalizeUserId userId)).swallow

/-! ## Second factors of the authenticated user -/

/-- `mfa_enable`. -/
def mfaEnable (cfg : Config) (userId code : Str) : Req AuthError Unit := do
  let enabled ← enableTotp cfg userId code
  Prog.ensure (enabled = true) (.validationError "Invalid TOTP code")

/-- `mfa_disable`: takes a valid code. -/
def mfaDisable (cfg : Config) (userId code : Str) : Req AuthError Unit := do
  let verified ← verifyTotp cfg userId code
  Prog.ensure (verified = true) (.validationError "Invalid TOTP code")
  let _ ← disableMfa userId
  return ()

/-! ## The administration of lockouts -/

/-- `normalise`. -/
def normaliseIdentifier (raw : Str) : Except AuthError Str :=
  let trimmed := Str.trim raw
  if trimmed = [] then .error (.validationError "identifier is required")
  else if trimmed.any Str.isControl then
    .error (.validationError "identifier must not contain control characters")
  else .ok trimmed

/-- `get_lockout_status`. -/
def getLockoutStatus (cfg : Config) (scope : LockoutType) (raw : Str) :
    Req AuthError LockoutCheckResult := do
  let identifier ← Prog.ofExcept (normaliseIdentifier raw)
  checkLockout cfg.lockout scope identifier

/-- `unlock`. -/
def unlockRoute (scope : LockoutType) (raw : Str) : Req AuthError Bool := do
  let identifier ← Prog.ofExcept (normaliseIdentifier raw)
  unlock scope identifier

/-- `cleanup_expired_auth_artifacts`. -/
def cleanupExpiredAuthArtifacts : Req AuthError Unit := do
  let now ← getNow
  query (.session (.deleteExpired now))
  query (.resetToken (.deleteSpent now))

end SoulAuth
