import SoulAuth.Models.Identity
import SoulAuth.Utils.RecordId

/-! # Statements on the identity tables

Each table has the statements that the program issues on it, what they
answer, and what they do. A statement that fails leaves the tables as they
are. Writes check the unique indexes of the schema.
-/

namespace SoulAuth

/-- The tables of the identity domain. -/
structure IdentityTables where
  users : List User
  actors : List ActorIdentity
  accounts : List HumanAccount
  credentials : List Credential
  bindings : List IdentityBinding
  deriving Repr

/-- `(SELECT VALUE subject_id FROM type::record('user', key))[0]`. -/
def subjectOf (users : List User) (key : Str) : Option Str :=
  (users.find? fun u => u.key = key).bind User.subjectId

/-! ## `user` -/

/-- The statements on `user`. -/
inductive UserStmt
  /-- `find_record_by_field("user", "id", ..)`; the argument is the key. -/
  | findById (key : Str)
  | findByEmail (email : Str)
  | findByUsername (normalized : Str)
  /-- `WHERE subject_id = type::record('actor_identity', key) LIMIT 1`. -/
  | findByActor (actorKey : Str)
  /-- `WHERE subject_id = actor_identity:key OR id = user:key LIMIT 1`. -/
  | findByActorOrId (key : Str)
  /-- `SELECT VALUE subject_id FROM type::record('user', key)`. -/
  | subjectOf (key : Str)
  /-- `update_record("user", ..)`: the whole record is replaced. -/
  | update (key : Str) (content : User)
  /-- `claim_verification_token`: the keys of the updated rows. -/
  | claimVerification (tokenHash : Hashed Str) (now : Timestamp)
  /-- `UPDATE user SET account_status, updated_at WHERE id = ..`. -/
  | setAccountStatus (key : Str) (status : AccountStatus) (now : Timestamp)
  deriving DecidableEq, Repr

@[reducible] def UserStmt.Reply : UserStmt → Type
  | findById _ | findByEmail _ | findByUsername _ | findByActor _ | findByActorOrId _ =>
    Option User
  | subjectOf _ => Option Str
  | update _ _ => User
  | claimVerification _ _ => List Str
  | setAccountStatus _ _ _ => Unit

/-- The rows that `claim_verification_token` updates. -/
def User.isClaimable (tokenHash : Hashed Str) (now : Timestamp) (u : User) : Bool :=
  u.verificationTokenHash = some tokenHash && !u.verified &&
    match u.verificationTokenExpiresAt with
    | some t => now < t
    | none => false

/-- What `claim_verification_token` writes to such a row. -/
def User.claimed (now : Timestamp) (u : User) : User :=
  { u with verified := true, verificationTokenHash := none,
           verificationTokenExpiresAt := none, updatedAt := now }

def UserStmt.exec : (s : UserStmt) → List User → Except DbFailure s.Reply × List User
  | findById key, t => (.ok (t.find? fun u => u.key = key), t)
  | findByEmail email, t => (.ok (t.find? fun u => u.email = email), t)
  | findByUsername n, t => (.ok (t.find? fun u => u.usernameNormalized = n), t)
  | findByActor a, t => (.ok (t.find? fun u => u.subjectId = some a), t)
  | findByActorOrId k, t => (.ok (t.find? fun u => u.subjectId = some k || u.key = k), t)
  | subjectOf key, t => (.ok (SoulAuth.subjectOf t key), t)
  | update key content, t =>
    if t.any fun u => u.key = key then
      if t.any fun u => u.key ≠ key && u.email = content.email then
        (.error (.alreadyContains "email_idx".toList content.email), t)
      else if t.any fun u => u.key ≠ key && u.usernameNormalized = content.usernameNormalized then
        (.error (.alreadyContains "username_idx".toList content.usernameNormalized), t)
      else
        let content := { content with key := key }
        (.ok content, t.map fun u => if u.key = key then content else u)
    else (.error .recordNotFound, t)
  | claimVerification h now, t =>
    (.ok ((t.filter (User.isClaimable h now)).map User.key),
      t.map fun u => if u.isClaimable h now then u.claimed now else u)
  | setAccountStatus key status now, t =>
    (.ok (), t.map fun u =>
      if u.key = key then { u with accountStatus := status, updatedAt := now } else u)

/-! ## `actor_identity` and `human_account` -/

/-- The statements on `actor_identity`. -/
inductive ActorStmt
  | find (key : Str)
  | setStatus (key : Str) (status : ActorStatus) (now : Timestamp)
  | create (a : ActorIdentity)
  deriving DecidableEq, Repr

@[reducible] def ActorStmt.Reply : ActorStmt → Type
  | find _ => Option ActorIdentity
  | setStatus _ _ _ => Unit
  | create _ => Unit

def ActorStmt.exec : (s : ActorStmt) → List ActorIdentity →
    Except DbFailure s.Reply × List ActorIdentity
  | find key, t => (.ok (t.find? fun a => a.key = key), t)
  | setStatus key status now, t =>
    (.ok (), t.map fun a =>
      if a.key = key then { a with status := status, updatedAt := now } else a)
  | create a, t =>
    if t.any fun b => b.key = a.key || b.subjectKey = a.subjectKey then
      (.error (.alreadyContains "actor_subject_idx".toList a.subjectKey), t)
    else (.ok (), t ++ [a])

/-! ## `credential` -/

/-- The statements on `credential`. -/
inductive CredentialStmt
  | findPassword (actorKey : Str)
  /-- Answers whether a row was updated. -/
  | rotate (actorKey : Str) (secretHash : Str) (now : Timestamp)
  | create (c : Credential)
  | revoke (actorKey : Str) (now : Timestamp)
  deriving DecidableEq, Repr

@[reducible] def CredentialStmt.Reply : CredentialStmt → Type
  | findPassword _ => Option Credential
  | rotate _ _ _ => Bool
  | create _ => Unit
  | revoke _ _ => Unit

def CredentialStmt.exec : (s : CredentialStmt) → List Credential →
    Except DbFailure s.Reply × List Credential
  | findPassword a, t => (.ok (t.find? fun c => c.actorIdentityId = a), t)
  | rotate a h now, t =>
    (.ok (t.any fun c => c.actorIdentityId = a),
      t.map fun c => if c.actorIdentityId = a then
        { c with secretHash := some h, status := .active, rotatedAt := some now,
                 revokedAt := none } else c)
  | create c, t =>
    if t.any fun d => d.actorIdentityId = c.actorIdentityId then
      (.error (.alreadyContains "credential_actor_kind_idx".toList c.actorIdentityId), t)
    else (.ok (), t ++ [c])
  | revoke a now, t =>
    (.ok (), t.map fun c => if c.actorIdentityId = a then
      { c with status := .revoked, revokedAt := some now } else c)

/-! ## The transaction that creates a human -/

/-- The rows that `create_human_aggregate` writes in one transaction. -/
structure HumanAggregate where
  actor : ActorIdentity
  account : HumanAccount
  user : User
  credential : Option Credential
  binding : Option IdentityBinding
  deriving DecidableEq, Repr

/-- The unique index that a new aggregate violates first, if any. -/
def HumanAggregate.violation (t : IdentityTables) (h : HumanAggregate) : Option DbFailure :=
  if t.actors.any fun a => a.key = h.actor.key || a.subjectKey = h.actor.subjectKey then
    some (.alreadyContains "actor_subject_idx".toList h.actor.subjectKey)
  else if t.accounts.any fun a => a.email = h.account.email then
    some (.alreadyContains "human_account_email_idx".toList h.account.email)
  else if t.accounts.any fun a => a.usernameNormalized = h.account.usernameNormalized then
    some (.alreadyContains "human_account_username_idx".toList h.account.usernameNormalized)
  else if t.accounts.any fun a => a.actorIdentityId = h.account.actorIdentityId then
    some (.alreadyContains "human_account_actor_idx".toList h.account.actorIdentityId)
  else if t.users.any fun u => u.email = h.user.email then
    some (.alreadyContains "email_idx".toList h.user.email)
  else if t.users.any fun u => u.usernameNormalized = h.user.usernameNormalized then
    some (.alreadyContains "username_idx".toList h.user.usernameNormalized)
  else if t.users.any fun u => u.key = h.user.key then
    some (.alreadyContains "user".toList h.user.key)
  else if h.credential.any fun c =>
      t.credentials.any fun d => d.actorIdentityId = c.actorIdentityId then
    some (.alreadyContains "credential_actor_kind_idx".toList h.actor.key)
  else if h.binding.any fun b =>
      t.bindings.any fun c => c.provider = b.provider && c.providerSubject = b.providerSubject then
    some (.alreadyContains "identity_binding_provider_subject_idx".toList h.actor.key)
  else none

/-- `identity_create_human_aggregate`. -/
def HumanAggregate.create (h : HumanAggregate) (t : IdentityTables) :
    Except DbFailure Unit × IdentityTables :=
  match h.violation t with
  | some e => (.error e, t)
  | none =>
    (.ok (),
      { users := t.users ++ [h.user]
        actors := t.actors ++ [h.actor]
        accounts := t.accounts ++ [h.account]
        credentials := t.credentials ++ h.credential.toList
        bindings := t.bindings ++ h.binding.toList })

/-- The statements of the identity domain. -/
inductive IdentityStmt
  | user (s : UserStmt)
  | actor (s : ActorStmt)
  | credential (s : CredentialStmt)
  /-- `identity_account_of_actor`. -/
  | accountOfActor (actorKey : Str)
  /-- `identity_resolve_binding`. -/
  | findBinding (provider providerSubject : Str)
  | createHuman (h : HumanAggregate)
  deriving DecidableEq, Repr

@[reducible] def IdentityStmt.Reply : IdentityStmt → Type
  | user s => s.Reply
  | actor s => s.Reply
  | credential s => s.Reply
  | accountOfActor _ => Option HumanAccount
  | findBinding _ _ => Option IdentityBinding
  | createHuman _ => Unit

def IdentityStmt.exec : (s : IdentityStmt) → IdentityTables →
    Except DbFailure s.Reply × IdentityTables
  | user s, t => let out := s.exec t.users; (out.1, { t with users := out.2 })
  | actor s, t => let out := s.exec t.actors; (out.1, { t with actors := out.2 })
  | credential s, t =>
    let out := s.exec t.credentials; (out.1, { t with credentials := out.2 })
  | accountOfActor a, t => (.ok (t.accounts.find? fun x => x.actorIdentityId = a), t)
  | findBinding p s, t =>
    (.ok (t.bindings.find? fun b => b.provider = p && b.providerSubject = s), t)
  | createHuman h, t => h.create t

end SoulAuth
