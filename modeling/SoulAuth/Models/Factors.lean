import SoulAuth.Models.Identity
import SoulAuth.Config

/-! # Lockout records, second factors and AI actor keys -/

namespace SoulAuth

/-! ## Lockout -/

/-- `LockoutStatus`. -/
inductive LockoutStatus
  | normal
  | locked
  | temporaryLocked
  deriving DecidableEq, Repr

/-- `LockoutType`. -/
inductive LockoutType
  | user
  | ipAddress
  deriving DecidableEq, Repr

/-- `AccountLockout`, with its record key. -/
structure AccountLockout where
  key : Str
  identifier : Str
  lockoutType : LockoutType
  failedAttempts : Nat
  status : LockoutStatus
  lockedAt : Option Timestamp
  lockedUntil : Option Timestamp
  lastAttemptAt : Timestamp
  createdAt : Timestamp
  updatedAt : Timestamp
  deriving DecidableEq, Repr

namespace AccountLockout

/-- `unlock_account`. -/
def unlockAccount (l : AccountLockout) (now : Timestamp) : AccountLockout :=
  { l with status := .normal, failedAttempts := 0, lockedAt := none, lockedUntil := none,
           updatedAt := now }

/-- `is_locked`. -/
def isLocked (l : AccountLockout) (now : Timestamp) : Bool :=
  match l.status with
  | .normal => false
  | .locked | .temporaryLocked =>
    match l.lockedUntil with
    | some lockedUntil => now < lockedUntil
    | none => true

/-- `is_lock_expired`. -/
def isLockExpired (l : AccountLockout) (now : Timestamp) : Bool :=
  match l.lockedUntil with
  | some lockedUntil => lockedUntil ≤ now
  | none => false

/-- `remaining_lockout_seconds`. -/
def remainingLockoutSeconds (l : AccountLockout) (now : Timestamp) : Option Int :=
  match l.lockedUntil with
  | some lockedUntil => if 0 < lockedUntil - now then some (lockedUntil - now) else none
  | none => none

/-- `should_reset_attempts`. -/
def shouldResetAttempts (l : AccountLockout) (cfg : LockoutConfig) (now : Timestamp) : Bool :=
  l.lastAttemptAt < now - 60 * cfg.resetWindowMinutes

end AccountLockout

/-- `LockoutCheckResult`. -/
structure LockoutCheckResult where
  isLocked : Bool
  remainingAttempts : Nat
  remainingLockoutSeconds : Option Int
  lockoutType : Option LockoutType
  deriving DecidableEq, Repr

/-- `LockoutCheckResult::normal`. -/
def LockoutCheckResult.normal (remainingAttempts : Nat) : LockoutCheckResult :=
  ⟨false, remainingAttempts, none, none⟩

/-- `LockoutCheckResult::locked`. -/
def LockoutCheckResult.locked (lockoutType : LockoutType) (remaining : Option Int) :
    LockoutCheckResult :=
  ⟨true, 0, remaining, some lockoutType⟩

/-! ## Second factors -/

/-- `MfaStatus`. -/
inductive MfaStatus
  | disabled
  | pending
  | enabled
  deriving DecidableEq, Repr

/-- `MfaMethod`. -/
inductive MfaMethod
  | totp
  | sms
  | email
  deriving DecidableEq, Repr

/-- `UserMfa`. The secret is stored encrypted; the model stores what
    decryption returns. -/
structure UserMfa where
  userId : Str
  status : MfaStatus
  method : MfaMethod
  totpSecret : Option Str
  backupCodes : List Str
  lastTotpStep : Option Int
  deriving DecidableEq, Repr

/-- `MfaChallengeClaims`, the claims of the token between the two steps of
    a login. Its `purpose` is fixed. -/
structure MfaChallengeClaims where
  sub : Str
  email : Str
  exp : Timestamp
  iat : Timestamp
  deriving DecidableEq, Repr

/-! ## AI actors -/

/-- `AiActorCredential`. -/
structure AiActorCredential where
  key : Str
  actorIdentityId : Str
  publicKey : Str
  algorithm : Str
  label : Str
  status : CredentialStatus
  createdAt : Timestamp
  revokedAt : Option Timestamp
  lastUsedAt : Option Timestamp
  deriving DecidableEq, Repr

/-- The only element of `ALLOWED_ALGORITHMS`. -/
def allowedAlgorithm : Str := "ed25519".toList

/-- `AiActorCredential::can_authenticate`. -/
def AiActorCredential.canAuthenticate (c : AiActorCredential) : Bool :=
  c.status = .active && c.algorithm = allowedAlgorithm

/-- `AiActorChallenge`. -/
structure AiActorChallenge where
  key : Str
  actorIdentityId : Str
  nonce : Str
  issuedAt : Timestamp
  expiresAt : Timestamp
  consumed : Bool
  deriving DecidableEq, Repr

/-- `CHALLENGE_TTL_SECONDS`. -/
def challengeTtlSeconds : Int := 120

/-- `AiActorProof::canonical_payload`: four lines joined by line feeds. -/
def canonicalPayload (issuer actorId nonce : Str) : Str :=
  "soulauth-ai-actor-auth/v1".toList ++ '\n' :: Str.trimEndMatches '/' issuer ++
    '\n' :: actorId ++ '\n' :: nonce

end SoulAuth
