import SoulAuth.Services.Database

/-! # Account lockout

Users and IP addresses have the same operations; they differ in the type
and in the switch of the configuration.
-/

namespace SoulAuth

open Framework

variable [Platform]

/-- `format!("{:?}", lockout_type).to_lowercase()`. -/
def LockoutType.lowerName : LockoutType → Str
  | .user => "user".toList
  | .ipAddress => "ipaddress".toList

/-- The switch of the configuration for a type. -/
def LockoutConfig.enables (cfg : LockoutConfig) : LockoutType → Bool
  | .user => cfg.enableUserLockout
  | .ipAddress => cfg.enableIpLockout

/-- `lockout_record_id`. -/
def lockoutRecordId (identifier : Str) (ty : LockoutType) : Str :=
  ty.lowerName ++ ':' :: Str.replaceChar ' ' '_' identifier

/-- `get_lockout_record`. -/
def getLockoutRecord (identifier : Str) (ty : LockoutType) : Req AuthError AccountLockout := do
  let row : Option AccountLockout ← query (.lockout (.get identifier ty))
  Prog.orThrow .userNotFound row

/-- `save_lockout_record`: under the key of the record's own identifier. -/
def saveLockoutRecord (l : AccountLockout) : Req AuthError Unit :=
  query (.lockout (.save { l with key := lockoutRecordId l.identifier l.lockoutType }))

/-- The stale reset of a check. -/
def resetStaleAttempts (cfg : LockoutConfig) (l : AccountLockout) :
    Req AuthError AccountLockout := do
  let now ← getNow
  if l.shouldResetAttempts cfg now = true ∧ l.status = .normal then
    let updatedAt ← getNow
    let l := { l with failedAttempts := 0, updatedAt := updatedAt }
    saveLockoutRecord l
    return l
  else return l

/-- The check of a record that exists. -/
def checkRecord (cfg : LockoutConfig) (ty : LockoutType) (l : AccountLockout) :
    Req AuthError LockoutCheckResult := do
  let now ← getNow
  if l.isLockExpired now = true ∧ l.status ≠ .normal then
    let now ← getNow
    saveLockoutRecord (l.unlockAccount now)
    return .normal cfg.maxAttempts
  else
    let l ← resetStaleAttempts cfg l
    let now ← getNow
    if l.isLocked now then
      let now ← getNow
      return .locked ty (l.remainingLockoutSeconds now)
    else return .normal (cfg.maxAttempts - l.failedAttempts)

/-- The check for one type: no record is the same as a fresh one. -/
def checkLockout (cfg : LockoutConfig) (ty : LockoutType) (identifier : Str) :
    Req AuthError LockoutCheckResult :=
  if cfg.enables ty then do
    let found : Except AuthError AccountLockout ← (getLockoutRecord identifier ty).attempt
    match found with
    | .ok l => checkRecord cfg ty l
    | .error .userNotFound => return .normal cfg.maxAttempts
    | .error e => throw e
  else return .normal cfg.maxAttempts

/-- `check_user_lockout`. -/
def checkUserLockout (cfg : LockoutConfig) (userId : Str) : Req AuthError LockoutCheckResult :=
  checkLockout cfg .user userId

/-- `check_ip_lockout`. -/
def checkIpLockout (cfg : LockoutConfig) (ip : Str) : Req AuthError LockoutCheckResult :=
  checkLockout cfg .ipAddress ip

/-- `AttemptOutcome`. -/
structure AttemptOutcome where
  failedAttempts : Nat
  justLocked : Bool
  deriving DecidableEq, Repr

/-- `WRITE_CONFLICT_RETRIES` of the lockout service. -/
def writeConflictRetries : Nat := 5

/-- The query of `increment_failed_attempts`. Its three statements are sent
    together, each a transaction of its own: one that fails does not stop
    the next, and any failure is reported. -/
def sendFailedAttempt (cfg : LockoutConfig) (identifier : Str) (ty : LockoutType) :
    Req AuthError AttemptOutcome := do
  let recordId := lockoutRecordId identifier ty
  let counted : Except AuthError Unit ←
    Prog.attempt (query (.lockout (.countFailure recordId identifier ty)))
  let newlyLocked : Except AuthError Bool ← Prog.attempt (query
    (.lockout (.lockIfReached recordId cfg.maxAttempts cfg.lockoutDurationMinutes)))
  let rows : Except AuthError (Option Nat) ←
    Prog.attempt (query (.lockout (.attempts recordId)))
  Prog.ofExcept counted
  let justLocked ← Prog.ofExcept newlyLocked
  let attempts ← Prog.ofExcept rows
  return { failedAttempts := attempts.getD 0, justLocked := justLocked }

/-- `increment_failed_attempts`. -/
def incrementFailedAttempts (cfg : LockoutConfig) (identifier : Str) (ty : LockoutType) :
    Req AuthError AttemptOutcome :=
  retryOnConflict writeConflictRetries (sendFailedAttempt cfg identifier ty)

/-- The recording of a failure for one type. -/
def recordFailedAttempt (cfg : LockoutConfig) (ty : LockoutType) (identifier : Str) :
    Req AuthError Unit :=
  if cfg.enables ty then do
    let _ ← incrementFailedAttempts cfg identifier ty
    return ()
  else return ()

/-- `record_failed_user_attempt`. -/
def recordFailedUserAttempt (cfg : LockoutConfig) (userId : Str) : Req AuthError Unit :=
  recordFailedAttempt cfg .user userId

/-- `record_failed_ip_attempt`. -/
def recordFailedIpAttempt (cfg : LockoutConfig) (ip : Str) : Req AuthError Unit :=
  recordFailedAttempt cfg .ipAddress ip

/-- The reset for one type. -/
def resetAttempts (ty : LockoutType) (identifier : Str) : Req AuthError Unit := do
  let found : Except AuthError AccountLockout ← (getLockoutRecord identifier ty).attempt
  match found with
  | .ok l =>
    let now ← getNow
    saveLockoutRecord (l.unlockAccount now)
  | .error .userNotFound => return ()
  | .error e => throw e

/-- `reset_user_attempts`. -/
def resetUserAttempts (userId : Str) : Req AuthError Unit := resetAttempts .user userId

/-- `reset_ip_attempts`. -/
def resetIpAttempts (ip : Str) : Req AuthError Unit := resetAttempts .ipAddress ip

/-- The unlocking for one type: whether a lock in force was lifted. -/
def unlock (ty : LockoutType) (identifier : Str) : Req AuthError Bool := do
  let found : Except AuthError AccountLockout ← (getLockoutRecord identifier ty).attempt
  match found with
  | .ok l =>
    let now ← getNow
    if l.isLocked now then
      let now ← getNow
      saveLockoutRecord (l.unlockAccount now)
      return true
    else return false
  | .error .userNotFound => return false
  | .error e => throw e

/-- `unlock_user`. -/
def unlockUser (userId : Str) : Req AuthError Bool := unlock .user userId

/-- `unlock_ip`. -/
def unlockIp (ip : Str) : Req AuthError Bool := unlock .ipAddress ip

/-- `cleanup_expired_lockouts`. -/
def cleanupExpiredLockouts (cfg : LockoutConfig) : Req AuthError Unit := do
  let now ← getNow
  query (.lockout (.cleanup now (now - 60 * cfg.resetWindowMinutes)))

/-! ## The service -/

/-- The operations of the service. A reset follows a completed login, an
    unlocking is asked for by an administrator. -/
inductive LockoutCall
  | check (cfg : LockoutConfig) (ty : LockoutType) (identifier : Str)
  | recordFailed (cfg : LockoutConfig) (ty : LockoutType) (identifier : Str)
  | reset (ty : LockoutType) (identifier : Str)
  | unlock (ty : LockoutType) (identifier : Str)
  | cleanup (cfg : LockoutConfig)
  deriving DecidableEq

inductive LockoutAnswer
  | checked (result : LockoutCheckResult)
  | recorded
  | reset
  | unlocked (lifted : Bool)
  | cleaned
  deriving DecidableEq, Repr

/-- The service, as the requests of all servers call it. -/
@[reducible] def lockoutService : System where
  machine := machine
  Req := LockoutCall
  Err := AuthError
  Res := LockoutAnswer
  program := fun
    | .check cfg ty identifier => do
      let result ← checkLockout cfg ty identifier
      return .checked result
    | .recordFailed cfg ty identifier => do
      recordFailedAttempt cfg ty identifier
      return .recorded
    | .reset ty identifier => do
      resetAttempts ty identifier
      return .reset
    | .unlock ty identifier => do
      let lifted ← SoulAuth.unlock ty identifier
      return .unlocked lifted
    | .cleanup cfg => do
      cleanupExpiredLockouts cfg
      return .cleaned

end SoulAuth
