import Mathlib.Data.List.Sort
import SoulAuth.Error
import SoulAuth.Models.Factors

/-! # Statements on lockout records, second factors and AI actor keys -/

namespace SoulAuth

/-! ## `account_lockout` -/

/-- The statements on `account_lockout`. -/
inductive LockoutStmt
  /-- `get_lockout_record`: by the identifier, not by the record key. -/
  | get (identifier : Str) (lockoutType : LockoutType)
  /-- `save_lockout_record`: `UPSERT .. CONTENT` under the record key. -/
  | save (l : AccountLockout)
  /-- The first statement of `increment_failed_attempts`, an `UPSERT` under
      the record key. -/
  | countFailure (key identifier : Str) (lockoutType : LockoutType)
  /-- The second one: lock the record when it has reached `maxAttempts`.
      Answers whether it did. -/
  | lockIfReached (key : Str) (maxAttempts durationMinutes : Nat)
  /-- The third one: the number of attempts. -/
  | attempts (key : Str)
  /-- `cleanup_expired_lockouts`. -/
  | cleanup (now staleBefore : Timestamp)
  deriving DecidableEq, Repr

@[reducible] def LockoutStmt.Reply : LockoutStmt → Type
  | get _ _ => Option AccountLockout
  | save _ => Unit
  | countFailure _ _ _ => Unit
  | lockIfReached _ _ _ => Bool
  | attempts _ => Option Nat
  | cleanup _ _ => Unit

/-- `UPSERT`: replace the row with this key, or append one. -/
def upsertLockout (key : Str) (f : Option AccountLockout → AccountLockout)
    (t : List AccountLockout) : List AccountLockout :=
  if t.any fun r => r.key = key then t.map fun r => if r.key = key then f (some r) else r
  else t ++ [f none]

/-- What `countFailure` makes of the row it finds. A new row has the
    defaults of the schema. -/
def AccountLockout.counted (key identifier : Str) (lockoutType : LockoutType)
    (now : Timestamp) : Option AccountLockout → AccountLockout
  | some r =>
    { r with identifier := identifier, lockoutType := lockoutType,
             failedAttempts := r.failedAttempts + 1, lastAttemptAt := now, updatedAt := now }
  | none =>
    { key := key, identifier := identifier, lockoutType := lockoutType, failedAttempts := 1,
      status := .normal, lockedAt := none, lockedUntil := none, lastAttemptAt := now,
      createdAt := now, updatedAt := now }

/-- The rows that `lockIfReached` updates. -/
def AccountLockout.isReached (key : Str) (maxAttempts : Nat) (r : AccountLockout) : Bool :=
  r.key = key && (maxAttempts ≤ r.failedAttempts && r.status ≠ .locked)

/-- What `lockIfReached` writes to such a row. -/
def AccountLockout.lock (durationMinutes : Nat) (now : Timestamp) (r : AccountLockout) :
    AccountLockout :=
  { r with status := .locked, lockedAt := some now,
           lockedUntil := some (now + 60 * durationMinutes) }

/-- A row that violates the unique index of the identifier, other than the
    row with this key. -/
def lockoutClash (key identifier : Str) (lockoutType : LockoutType)
    (t : List AccountLockout) : Bool :=
  t.any fun r => r.key ≠ key && r.identifier = identifier && r.lockoutType = lockoutType

def LockoutStmt.exec (now : Timestamp) : (s : LockoutStmt) → List AccountLockout →
    Except DbFailure s.Reply × List AccountLockout
  | get id ty, t => (.ok (t.find? fun r => r.identifier = id && r.lockoutType = ty), t)
  | save l, t =>
    if lockoutClash l.key l.identifier l.lockoutType t then
      (.error (.alreadyContains "lockout_identifier_idx".toList l.identifier), t)
    else (.ok (), upsertLockout l.key (fun _ => l) t)
  | countFailure key id ty, t =>
    if lockoutClash key id ty t then
      (.error (.alreadyContains "lockout_identifier_idx".toList id), t)
    else (.ok (), upsertLockout key (AccountLockout.counted key id ty now) t)
  | lockIfReached key maxAttempts duration, t =>
    (.ok (t.any (AccountLockout.isReached key maxAttempts)), t.map fun r =>
      if r.isReached key maxAttempts then r.lock duration now else r)
  | attempts key, t =>
    (.ok ((t.find? fun r => r.key = key).map AccountLockout.failedAttempts), t)
  | cleanup now' staleBefore, t =>
    (.ok (), t.filter fun r =>
      !((r.status ≠ .normal && match r.lockedUntil with
          | some u => u < now'
          | none => false) ||
        (r.status = .normal && r.lastAttemptAt < staleBefore)))

/-! ## `user_mfa` -/

/-- The statements on `user_mfa`. -/
inductive MfaStmt
  | get (userId : Str)
  /-- `mfa_consume_totp_step`: whether the step was accepted. It writes the
      secret that the caller has read; `enable` is the extra
      `status = 'Enabled'` of the enabling request. -/
  | consumeTotpStep (userId secret : Str) (step : Int) (enable : Bool)
  /-- `mfa_consume_backup_code`: whether the code was there. -/
  | consumeBackupCode (userId usedHash : Str)
  | save (m : UserMfa)
  | delete (userId : Str)
  deriving DecidableEq, Repr

@[reducible] def MfaStmt.Reply : MfaStmt → Type
  | get _ => Option UserMfa
  | consumeTotpStep _ _ _ _ | consumeBackupCode _ _ => Bool
  | save _ | delete _ => Unit

/-- The condition under which a TOTP step is accepted. -/
def UserMfa.acceptsStep (userId : Str) (step : Int) (m : UserMfa) : Bool :=
  m.userId = userId && match m.lastTotpStep with
    | some last => last < step
    | none => true

def MfaStmt.exec : (s : MfaStmt) → List UserMfa → Except DbFailure s.Reply × List UserMfa
  | get id, t => (.ok (t.find? fun m => m.userId = id), t)
  | consumeTotpStep id secret step enable, t =>
    (.ok (t.any fun m => m.acceptsStep id step), t.map fun m =>
      if m.acceptsStep id step then
        { m with lastTotpStep := some step, totpSecret := some secret,
                 status := if enable then .enabled else m.status }
      else m)
  | consumeBackupCode id used, t =>
    (.ok (t.any fun m => m.userId = id && m.backupCodes.contains used), t.map fun m =>
      if m.userId = id && m.backupCodes.contains used then
        { m with backupCodes := m.backupCodes.filter (· ≠ used) }
      else m)
  | save m, t =>
    (.ok (), if t.any fun r => r.userId = m.userId then
        t.map fun r => if r.userId = m.userId then m else r
      else t ++ [m])
  | delete id, t => (.ok (), t.filter fun m => m.userId ≠ id)

/-! ## `ai_actor_credential` and `ai_actor_challenge` -/

/-- The tables of AI actor authentication. -/
structure AiActorTables where
  credentials : List AiActorCredential
  challenges : List AiActorChallenge
  deriving Repr

/-- The statements on the tables of AI actor authentication. -/
inductive AiActorStmt
  | createCredential (c : AiActorCredential)
  /-- The newest key first. -/
  | listCredentials (actorKey : Str)
  | touchCredential (key : Str) (now : Timestamp)
  /-- `ai_actor_revoke_credential`: whether a row was updated. -/
  | revokeCredential (key actorKey : Str) (now : Timestamp)
  | createChallenge (c : AiActorChallenge)
  /-- `ai_actor_consume_challenge`: the number of updated rows. -/
  | consumeChallenge (nonce actorKey : Str) (now : Timestamp)
  deriving DecidableEq, Repr

@[reducible] def AiActorStmt.Reply : AiActorStmt → Type
  | listCredentials _ => List AiActorCredential
  | consumeChallenge _ _ _ => Nat
  | revokeCredential _ _ _ => Bool
  | createCredential _ | touchCredential _ _ | createChallenge _ => Unit

/-- The rows that `ai_actor_consume_challenge` updates. -/
def AiActorChallenge.isClaimable (nonce actorKey : Str) (now : Timestamp)
    (c : AiActorChallenge) : Bool :=
  c.nonce = nonce && !c.consumed && now < c.expiresAt && c.actorIdentityId = actorKey

/-- The rows that `ai_actor_revoke_credential` updates. -/
def AiActorCredential.isRevocable (key actorKey : Str) (c : AiActorCredential) : Bool :=
  c.key = key && c.actorIdentityId = actorKey && c.status = .active

def AiActorStmt.exec : (s : AiActorStmt) → AiActorTables →
    Except DbFailure s.Reply × AiActorTables
  | createCredential c, t =>
    if t.credentials.any fun d => d.publicKey = c.publicKey then
      (.error (.alreadyContains "ai_actor_credential_key_idx".toList c.publicKey), t)
    else (.ok (), { t with credentials := t.credentials ++ [c] })
  | listCredentials a, t =>
    (.ok ((t.credentials.filter fun c => c.actorIdentityId = a).insertionSort
      fun c d => d.createdAt ≤ c.createdAt), t)
  | touchCredential key now, t =>
    (.ok (), { t with credentials := t.credentials.map fun c =>
      if c.key = key then { c with lastUsedAt := some now } else c })
  | revokeCredential key a now, t =>
    (.ok (t.credentials.any fun c => c.isRevocable key a),
      { t with credentials := t.credentials.map fun c =>
          if c.isRevocable key a then { c with status := .revoked, revokedAt := some now }
          else c })
  | createChallenge c, t =>
    if t.challenges.any fun d => d.nonce = c.nonce then
      (.error (.alreadyContains "ai_actor_challenge_nonce_idx".toList c.nonce), t)
    else (.ok (), { t with challenges := t.challenges ++ [c] })
  | consumeChallenge n a now, t =>
    (.ok (t.challenges.countP fun c => c.isClaimable n a now),
      { t with challenges := t.challenges.map fun c =>
          if c.isClaimable n a now then { c with consumed := true } else c })

end SoulAuth
