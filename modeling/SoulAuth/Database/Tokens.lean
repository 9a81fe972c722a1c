import SoulAuth.Database.Accounts
import SoulAuth.Models.Oidc

/-! # Statements on sessions, codes and tokens

The statements that name a user by key look the actor identity up in the
`user` table with a subquery; they receive that table and do not write it.
-/

namespace SoulAuth

/-! ## `session` -/

/-- The statements on `session`. -/
inductive SessionStmt
  | create (s : Session)
  /-- `verify_session_active`: a row with this token that is not expired. -/
  | isActive (tokenHash : Hashed Claims) (now : Timestamp)
  /-- `browser_session_is_active`. -/
  | isActiveByKey (key : Str) (now : Timestamp)
  /-- `SELECT VALUE authenticated_at FROM type::record('session', key)`. -/
  | authenticatedAt (key : Str)
  /-- `session_of_bearer`. -/
  | findByToken (tokenHash : Hashed Claims)
  | deleteByToken (tokenHash : Hashed Claims)
  /-- `delete_sessions_by_user_id`; the argument is the normalised key. -/
  | deleteByUser (userKey : Str)
  | deleteByActor (actorKey : Str)
  | deleteByCredential (actorKey credentialRef : Str)
  | deleteExpired (now : Timestamp)
  deriving DecidableEq, Repr

@[reducible] def SessionStmt.Reply : SessionStmt → Type
  | create _ => Unit
  | isActive _ _ | isActiveByKey _ _ => Bool
  | authenticatedAt _ => Option Timestamp
  | findByToken _ => Option Session
  | deleteByToken _ | deleteByUser _ | deleteByActor _ | deleteByCredential _ _
  | deleteExpired _ => Unit

def SessionStmt.exec (users : List User) : (s : SessionStmt) → List Session →
    Except DbFailure s.Reply × List Session
  | create s, t =>
    if t.any fun r => r.key = s.key then
      (.error (.alreadyContains "session".toList s.key), t)
    else if t.any fun r => r.tokenHash = s.tokenHash then
      (.error (.alreadyContains "session_token_hash_idx".toList s.key), t)
    else (.ok (), t ++ [s])
  | isActive h now, t => (.ok (t.any fun r => r.tokenHash = h && now < r.expiresAt), t)
  | isActiveByKey key now, t => (.ok (t.any fun r => r.key = key && now < r.expiresAt), t)
  | authenticatedAt key, t =>
    (.ok ((t.find? fun r => r.key = key).bind Session.authenticatedAt), t)
  | findByToken h, t => (.ok (t.find? fun r => r.tokenHash = h), t)
  | deleteByToken h, t => (.ok (), t.filter fun r => r.tokenHash ≠ h)
  | deleteByUser userKey, t =>
    (.ok (), t.filter fun r => some r.userId ≠ subjectOf users userKey)
  | deleteByActor a, t => (.ok (), t.filter fun r => r.userId ≠ a)
  | deleteByCredential a c, t =>
    (.ok (), t.filter fun r => !(r.userId = a && r.credentialRefs.head? = some c))
  | deleteExpired now, t => (.ok (), t.filter fun r => ¬ r.expiresAt < now)

/-! ## `password_reset_token` -/

/-- The statements on `password_reset_token`. -/
inductive ResetTokenStmt
  | create (r : PasswordResetToken)
  /-- `invalidate_password_reset_tokens`. -/
  | invalidate (email : Str)
  /-- `claim_password_reset_token`: the number of updated rows. The expiry
      is compared with the database's own clock. -/
  | claim (tokenHash : Hashed Str)
  | find (tokenHash : Hashed Str)
  | deleteSpent (now : Timestamp)
  deriving DecidableEq, Repr

@[reducible] def ResetTokenStmt.Reply : ResetTokenStmt → Type
  | create _ | invalidate _ | deleteSpent _ => Unit
  | claim _ => Nat
  | find _ => Option PasswordResetToken

/-- The rows that `claim_password_reset_token` updates. -/
def PasswordResetToken.isClaimable (h : Hashed Str) (now : Timestamp)
    (r : PasswordResetToken) : Bool :=
  r.tokenHash = h && !r.used && now < r.expiresAt

def ResetTokenStmt.exec (now : Timestamp) : (s : ResetTokenStmt) → List PasswordResetToken →
    Except DbFailure s.Reply × List PasswordResetToken
  | create r, t =>
    if t.any fun q => q.tokenHash = r.tokenHash then
      (.error (.alreadyContains "reset_token_idx".toList r.key), t)
    else (.ok (), t ++ [r])
  | invalidate email, t =>
    (.ok (), t.map fun r =>
      if r.email = email && !r.used then { r with used := true } else r)
  | claim h, t =>
    (.ok (t.countP fun r => r.isClaimable h now),
      t.map fun r => if r.isClaimable h now then { r with used := true } else r)
  | find h, t => (.ok (t.find? fun r => r.tokenHash = h), t)
  | deleteSpent now', t => (.ok (), t.filter fun r => !(r.used || r.expiresAt < now'))

/-! ## `oidc_client` -/

/-- The statements on `oidc_client`. -/
inductive ClientStmt
  /-- `WHERE client_id = .. AND is_active = true LIMIT 1`. -/
  | getActive (clientId : Str)
  | create (c : OidcClient)
  /-- `update_client_in_db`: every column but the secret, the state of
      activity, and the creation data. Answers the updated rows. -/
  | update (c : OidcClient)
  /-- Answers whether a row was updated, as do the next two. -/
  | disable (clientId : Str) (now : Timestamp)
  | setSecret (clientId : Str) (secretHash : Str) (now : Timestamp)
  deriving DecidableEq, Repr

@[reducible] def ClientStmt.Reply : ClientStmt → Type
  | getActive _ => Option OidcClient
  | create _ => Unit
  | update _ => Unit
  | disable _ _ | setSecret _ _ _ => Bool

/-- The columns that `update_client_in_db` writes. -/
def OidcClient.updateFrom (old new : OidcClient) : OidcClient :=
  { new with clientSecretHash := old.clientSecretHash, isActive := old.isActive,
             createdBy := old.createdBy, createdAt := old.createdAt }

def ClientStmt.exec : (s : ClientStmt) → List OidcClient →
    Except DbFailure s.Reply × List OidcClient
  | getActive id, t => (.ok (t.find? fun c => c.clientId = id && c.isActive), t)
  | create c, t =>
    if t.any fun d => d.clientId = c.clientId then
      (.error (.alreadyContains "oidc_client_id_idx".toList c.clientId), t)
    else (.ok (), t ++ [c])
  | update c, t =>
    (.ok (), t.map fun d => if d.clientId = c.clientId then d.updateFrom c else d)
  | disable id now, t =>
    (.ok (t.any fun c => c.clientId = id), t.map fun c =>
      if c.clientId = id then { c with isActive := false, updatedAt := now } else c)
  | setSecret id h now, t =>
    (.ok (t.any fun c => c.clientId = id), t.map fun c =>
      if c.clientId = id then { c with clientSecretHash := h, updatedAt := now } else c)

/-! ## `oidc_authorization_code` -/

/-- A key of the table `actor_identity` as the text `type::string` gives,
    without the quotes that normalisation would remove. -/
def actorAddress (key : Str) : Str := recordAddress "actor_identity".toList key

/-- The statements on `oidc_authorization_code`. -/
inductive CodeStmt
  /-- `save_authorization_code`; the `user_id` of the new row is the subject
      of the user named by the argument. -/
  | save (c : OidcAuthorizationCode) (userKey : Str)
  | get (codeHash : Hashed Str)
  /-- `update_authorization_code`: the number of updated rows. -/
  | consume (codeHash : Hashed Str)
  | deleteExpired (now : Timestamp)
  deriving DecidableEq, Repr

@[reducible] def CodeStmt.Reply : CodeStmt → Type
  | save _ _ | deleteExpired _ => Unit
  | get _ => Option OidcAuthorizationCode
  | consume _ => Nat

/-- The rows that `update_authorization_code` updates. -/
def OidcAuthorizationCode.isUnused (h : Hashed Str) (c : OidcAuthorizationCode) : Bool :=
  c.codeHash = h && !c.used

def CodeStmt.exec (users : List User) : (s : CodeStmt) → List OidcAuthorizationCode →
    Except DbFailure s.Reply × List OidcAuthorizationCode
  | save c userKey, t =>
    match subjectOf users userKey with
    | none => (.error .recordNotFound, t)
    | some actorKey =>
      if t.any fun d => d.codeHash = c.codeHash then
        (.error (.alreadyContains "oidc_auth_code_idx".toList actorKey), t)
      else (.ok (), t ++ [{ c with userId := actorKey }])
  | get h, t =>
    (.ok ((t.find? fun c => c.codeHash = h).map fun c =>
      { c with userId := actorAddress c.userId }), t)
  | consume h, t =>
    (.ok (t.countP fun c => c.isUnused h),
      t.map fun c => if c.isUnused h then { c with used := true } else c)
  | deleteExpired now, t => (.ok (), t.filter fun c => ¬ c.expiresAt < now)

/-! ## `oidc_access_token` and `oidc_refresh_token` -/

/-- `user_id IN [actor_identity:key, (SELECT VALUE subject_id FROM user:key)[0]]`. -/
def ownedBy (users : List User) (key userId : Str) : Bool :=
  userId = key || some userId = subjectOf users key

/-- The statements on `oidc_access_token`. -/
inductive AccessTokenStmt
  /-- The `user_id` of the row is the normalised key of an actor. -/
  | save (t : OidcAccessToken)
  | get (tokenHash : Hashed Str)
  | revokeByHash (tokenHash : Hashed Str)
  | revokeForClient (clientId userKey : Str)
  | revokeAll (userKey : Str)
  | deleteExpired (now : Timestamp)
  deriving DecidableEq, Repr

@[reducible] def AccessTokenStmt.Reply : AccessTokenStmt → Type
  | get _ => Option OidcAccessToken
  | save _ | revokeByHash _ | revokeForClient _ _ | revokeAll _ | deleteExpired _ => Unit

def AccessTokenStmt.exec (users : List User) : (s : AccessTokenStmt) →
    List OidcAccessToken → Except DbFailure s.Reply × List OidcAccessToken
  | save r, t =>
    if t.any fun q => q.tokenHash = r.tokenHash then
      (.error (.alreadyContains "oidc_access_token_idx".toList r.userId), t)
    else (.ok (), t ++ [r])
  | get h, t =>
    (.ok ((t.find? fun r => r.tokenHash = h).map fun r =>
      { r with userId := actorAddress r.userId }), t)
  | revokeByHash h, t => (.ok (), t.filter fun r => r.tokenHash ≠ h)
  | revokeForClient c k, t =>
    (.ok (), t.filter fun r => !(r.clientId = c && ownedBy users k r.userId))
  | revokeAll k, t => (.ok (), t.filter fun r => !ownedBy users k r.userId)
  | deleteExpired now, t => (.ok (), t.filter fun r => ¬ r.expiresAt < now)

/-- The statements on `oidc_refresh_token`. -/
inductive RefreshTokenStmt
  | save (t : OidcRefreshToken)
  | get (tokenHash : Hashed Str)
  /-- `consume_refresh_token_by_hash`: the number of updated rows. -/
  | consume (tokenHash : Hashed Str)
  | revokeForClient (clientId userKey : Str)
  | revokeAll (userKey : Str)
  | deleteExpired (now : Timestamp)
  deriving DecidableEq, Repr

@[reducible] def RefreshTokenStmt.Reply : RefreshTokenStmt → Type
  | get _ => Option OidcRefreshToken
  | consume _ => Nat
  | save _ | revokeForClient _ _ | revokeAll _ | deleteExpired _ => Unit

/-- The rows that `consume_refresh_token_by_hash` updates. -/
def OidcRefreshToken.isUnused (h : Hashed Str) (r : OidcRefreshToken) : Bool :=
  r.tokenHash = h && !r.used

def RefreshTokenStmt.exec (users : List User) : (s : RefreshTokenStmt) →
    List OidcRefreshToken → Except DbFailure s.Reply × List OidcRefreshToken
  | save r, t =>
    if t.any fun q => q.tokenHash = r.tokenHash then
      (.error (.alreadyContains "oidc_refresh_token_idx".toList r.userId), t)
    else (.ok (), t ++ [r])
  | get h, t =>
    (.ok ((t.find? fun r => r.tokenHash = h).map fun r =>
      { r with userId := actorAddress r.userId }), t)
  | consume h, t =>
    (.ok (t.countP fun r => r.isUnused h),
      t.map fun r => if r.isUnused h then { r with used := true } else r)
  | revokeForClient c k, t =>
    (.ok (), t.filter fun r => !(r.clientId = c && ownedBy users k r.userId))
  | revokeAll k, t => (.ok (), t.filter fun r => !ownedBy users k r.userId)
  | deleteExpired now, t => (.ok (), t.filter fun r => ¬ r.expiresAt < now)

end SoulAuth
